import SkyEye.Nand.Commands

/-!
# The runs of the small-block NAND flash

In a run of proper cycles from power on the code does what the observer knows to be due
(`cycles_meet`). Two page programs with nothing between them are not proper: the pointer stays
behind the data of the first (`second_program_moves`).
-/

namespace SkyEye.Nand

/-! ## Data out -/

section

variable {nf : SbStatus} {area : Nat} {args : List Byte}

/-- The address of the next byte. -/
theorem readAddress_succ (harea : area ∈ [0, 256, 512]) (args : List Byte) (count : Nat) :
    readAddress area args (count + 1) =
      SbStatus.nextAddress (areaCommand area) (readAddress area args count) := by
  have hplain (hne : area ≠ 512) (hno : areaCommand area ≠ cmdReadOob) :
      readAddress area args (count + 1) =
        SbStatus.nextAddress (areaCommand area) (readAddress area args count) := by
    unfold readAddress SbStatus.nextAddress
    rw [if_neg hne, if_neg hne]
    split
    · rename_i h
      exact absurd h.2 hno
    · exact (Nat.add_assoc _ count 1).symm
  simp only [List.mem_cons, List.not_mem_nil, or_false] at harea
  obtain rfl | rfl | rfl := harea
  · exact hplain (by decide) (by decide)
  · exact hplain (by decide) (by decide)
  · unfold readAddress SbStatus.nextAddress
    rw [if_pos rfl, if_pos rfl]
    have hoob : areaCommand 512 = cmdReadOob := rfl
    simp only [pagedumpsize, pagesize]
    generalize column 512 args - 512 = c
    generalize page args.tail = p
    split
    · omega
    · rename_i h
      have hne : ((p + (c + count) / 16) * 528 + 512 + (c + count) % 16 + 1) % 528 ≠ 0 :=
        fun h0 => h ⟨h0, hoob⟩
      omega

theorem readAddress_le (harea : area ∈ [0, 256, 512]) (args : List Byte) (count : Nat) :
    readAddress area args count ≤ readAddress area args (count + 1) := by
  rw [readAddress_succ harea]
  unfold SbStatus.nextAddress
  split <;> omega

theorem doRead_quiet (nf : SbStatus) : Quiet nf nf.doRead := by
  unfold SbStatus.doRead
  split
  · rename_i hlt
    refine ⟨rfl, rfl, fun hin => ⟨fun r hr => ?_, hin.2⟩⟩
    rcases List.mem_cons.mp hr with rfl | hr
    · exact hlt
    · exact hin.1 r hr
  · exact .refl nf

theorem doRead_iostatus (nf : SbStatus) : nf.doRead.iostatus = nf.iostatus ∧
    nf.doRead.cmd = nf.cmd ∧ nf.doRead.cmdstatus = nf.cmdstatus := by
  unfold SbStatus.doRead
  split <;> exact ⟨rfl, rfl, rfl⟩

/-- A data-out cycle of a read. -/
theorem Reading.output {count : Nat} (h : Reading nf area args count)
    (hcmd : nf.cmd = areaCommand area) (harea : area ∈ [0, 256, 512])
    (hio : nf.iostatus = .dataRead) : Reading nf.doRead area args (count + 1) ∧
      (readAddress area args count < devicesize →
        nf.doRead.iopin = nf.addrspace (readAddress area args count)) := by
  obtain ⟨hr, hs, ha⟩ := h
  obtain ⟨hio', -, hs'⟩ := doRead_iostatus nf
  have hle := readAddress_le harea args count
  have haddr := ha hio
  refine ⟨⟨hio'.symm ▸ hr, hs'.trans hs, fun _ => ?_⟩, fun hlt => ?_⟩
  · unfold SbStatus.doRead
    split
    · rename_i hlt
      rcases haddr with heq | hge
      · refine .inl ?_
        dsimp only
        rw [readAddress_succ harea, heq, hcmd]
      · omega
    · exact .inr (by omega)
  · have heq : nf.address = readAddress area args count := by
      rcases haddr with heq | hge
      · exact heq
      · omega
    unfold SbStatus.doRead
    rw [if_pos (heq ▸ hlt)]
    dsimp only
    rw [heq]

theorem doReadID_keeps (nf : SbStatus) : Quiet nf nf.doReadID ∧ nf.doReadID.cmd = nf.cmd ∧
    (nf.doReadID.iostatus = nf.iostatus ∨ nf.doReadID.iostatus = .none) ∧
      (nf.cmdstatus = .noStatus → nf.doReadID.cmdstatus = .noStatus) := by
  unfold SbStatus.doReadID
  split
  · rename_i n hn
    refine ⟨⟨rfl, rfl, id⟩, rfl, ?_, fun h => ?_⟩
    · dsimp only
      split
      · exact .inl rfl
      · exact .inr rfl
    · rw [hn] at h
      cases h
  · exact ⟨.refl nf, rfl, .inl rfl, id⟩

theorem output_quiet (nf : SbStatus) : Quiet nf nf.output := by
  unfold SbStatus.output
  split
  · exact doRead_quiet nf
  · exact (doReadID_keeps nf).1
  · exact ⟨rfl, rfl, id⟩
  · exact .refl nf

/-- Outside the operations no data is read, and none is expected. -/
theorem tracks_output_none (ht : Tracks nf .none) : Tracks nf.output .none := by
  obtain ⟨hd, hw, hc⟩ := ht
  unfold SbStatus.output
  split
  · exact absurd ‹_› hd
  · obtain ⟨-, hcmd, hio, hs⟩ := doReadID_keeps nf
    refine ⟨?_, ?_, ?_⟩
    · rcases hio with hio | hio <;> rw [hio]
      · exact hd
      · exact nofun
    · rcases hio with hio | hio <;> rw [hio]
      · exact hw
      · exact nofun
    · exact hc.imp hs fun h => hcmd.symm ▸ h
  · exact ⟨nofun, nofun, hc⟩
  · exact ⟨hd, hw, hc⟩

/-- A data-out cycle. -/
theorem tracks_output {op : Op} (ht : Tracks nf op)
    (hok : ∀ area args count, op = .read area args count → args.length = 4 →
      nf.iostatus = .dataRead) :
    Tracks nf.output op.dataOut ∧ Quiet nf nf.output ∧
      ∀ area args count, op = .read area args count → args.length = 4 →
        readAddress area args count < devicesize →
          nf.output.iopin = nf.addrspace (readAddress area args count) := by
  have hwaits (h : nf.iostatus = .cmd ∨ nf.iostatus = .addr) : nf.output = nf := by
    unfold SbStatus.output
    rcases h with h | h <;> rw [h]
  cases op with
  | none => exact ⟨tracks_output_none ht, output_quiet nf, fun _ _ _ h => by cases h⟩
  | read area args count =>
    obtain ⟨hcmd, harea, ⟨hlt, hcount, ha⟩ | ⟨hfour, hr⟩⟩ := ht
    · rw [hwaits ha.waits, Op.dataOut, if_neg (by omega)]
      refine ⟨⟨hcmd, harea, .inl ⟨hlt, hcount, ha⟩⟩, .refl nf, fun a r c h hfour => ?_⟩
      cases h
      omega
    · have hio := hok area args count rfl hfour
      have hout : nf.output = nf.doRead := by
        unfold SbStatus.output
        rw [hio]
      obtain ⟨hr', hbyte⟩ := hr.output hcmd harea hio
      rw [hout, Op.dataOut, if_pos hfour]
      refine ⟨⟨(doRead_iostatus nf).2.1.trans hcmd, harea, .inr ⟨hfour, hr'⟩⟩, doRead_quiet nf,
        fun a r c h _ => ?_⟩
      cases h
      exact hbyte
  | program area args data =>
    have hsame : nf.output = nf := by
      obtain ⟨-, -, ⟨-, -, ha, -⟩ | ⟨-, hl⟩⟩ := ht
      · exact hwaits ha.waits
      · unfold SbStatus.output
        rcases hl.ready with h | h | h <;> rw [h]
    rw [hsame]
    exact ⟨ht, .refl nf, fun _ _ _ h => by cases h⟩
  | erase args =>
    rw [hwaits ht.2.waits]
    exact ⟨ht, .refl nf, fun _ _ _ h => by cases h⟩

end

/-! ## Calls -/

/-- A change of the pins leaves the operation; `iostatus` follows CLE and ALE, and CE ends a
read. -/
structure Unmoved (nf nf' : SbStatus) : Prop where
  cmd : nf'.cmd = nf.cmd
  cmdstatus : nf'.cmdstatus = nf.cmdstatus
  address : nf'.address = nf.address
  pageoffset : nf'.pageoffset = nf.pageoffset
  writebuffer : nf'.writebuffer = nf.writebuffer
  iostatus : nf'.iostatus = nf.iostatus ∨ nf'.iostatus = .cmd ∨ nf'.iostatus = .addr ∨
    nf.iostatus = .dataRead ∧ nf'.iostatus = .none

namespace Unmoved

variable {nf nf' : SbStatus} {area : Nat} {args data : List Byte} {count : Nat}

theorem waits (h : Unmoved nf nf') (hw : nf.iostatus = .cmd ∨ nf.iostatus = .addr) :
    nf'.iostatus = .cmd ∨ nf'.iostatus = .addr := by
  rcases h.iostatus with hio | hio | hio | ⟨hd, -⟩
  · rwa [hio]
  · exact .inl hio
  · exact .inr hio
  · rw [hd] at hw
    exact hw.elim nofun nofun

theorem filled {col : Nat} (h : Unmoved nf nf') (hf : Filled nf col data) :
    Filled nf' col data := by
  rw [Filled, h.writebuffer]
  exact hf

theorem addressing (h : Unmoved nf nf') (ha : Addressing nf area args) :
    Addressing nf' area args :=
  ⟨h.waits ha.waits, h.cmdstatus.trans ha.status, h.pageoffset.trans ha.offset,
    h.address.trans ha.address, ha.spare⟩

theorem reading (h : Unmoved nf nf') (hr : Reading nf area args count) :
    Reading nf' area args count := by
  refine ⟨?_, h.cmdstatus.trans hr.status, fun hd => ?_⟩
  · rcases h.iostatus with hio | hio | hio | ⟨-, hio⟩
    · rw [hio]
      exact hr.ready
    all_goals
      rw [hio]
      exact ⟨nofun, nofun, nofun⟩
  · rw [h.address]
    rcases h.iostatus with hio | hio | hio | ⟨-, hio⟩
    · exact hr.address (hio.symm.trans hd)
    all_goals
      rw [hio] at hd
      cases hd

theorem loading (h : Unmoved nf nf') (hl : Loading nf area args data) :
    Loading nf' area args data := by
  refine ⟨?_, h.cmdstatus.trans hl.status, hl.inPage, hl.inDevice, h.address.trans hl.address,
    h.pageoffset ▸ hl.offset, h.pageoffset ▸ hl.bound,
    fun hoff => h.filled (hl.filled (h.pageoffset ▸ hoff))⟩
  rcases h.iostatus with hio | hio | hio | ⟨hd, -⟩
  · rw [hio]
    exact hl.ready
  · exact .inl hio
  · exact .inr (.inl hio)
  · have hr := hl.ready
    rw [hd] at hr
    exact hr.elim nofun fun hr => hr.elim nofun nofun

end Unmoved

theorem Tracks.unmoved {nf nf' : SbStatus} {op : Op} (ht : Tracks nf op) (h : Unmoved nf nf') :
    Tracks nf' op := by
  cases op with
  | none =>
    obtain ⟨hd, hw, hc⟩ := ht
    rw [Tracks, h.cmd, h.cmdstatus]
    rcases h.iostatus with hio | hio | hio | ⟨hd', -⟩
    · rw [hio]
      exact ⟨hd, hw, hc⟩
    · rw [hio]
      refine ⟨fun h => ?_, fun h => ?_, hc⟩
      · cases h
      · cases h
    · rw [hio]
      refine ⟨fun h => ?_, fun h => ?_, hc⟩
      · cases h
      · cases h
    · exact absurd hd' hd
  | read area args count =>
    obtain ⟨hc, harea, ⟨hlt, hcount, ha⟩ | ⟨hfour, hr⟩⟩ := ht
    · exact ⟨h.cmd.trans hc, harea, .inl ⟨hlt, hcount, h.addressing ha⟩⟩
    · exact ⟨h.cmd.trans hc, harea, .inr ⟨hfour, h.reading hr⟩⟩
  | program area args data =>
    obtain ⟨hc, harea, ⟨hlt, hdata, ha, hf⟩ | ⟨hfour, hl⟩⟩ := ht
    · exact ⟨h.cmd.trans hc, harea, .inl ⟨hlt, hdata, h.addressing ha, h.filled hf⟩⟩
    · exact ⟨h.cmd.trans hc, harea, .inr ⟨hfour, h.loading hl⟩⟩
  | erase args =>
    obtain ⟨hc, hw, h1, h2⟩ := ht
    refine ⟨h.cmd.trans hc, h.waits hw, h.pageoffset.trans h1, ?_⟩
    rw [h.address, h.cmdstatus]
    exact h2

/-- No call but a cycle reaches the memory. -/
theorem meets_of_quiet {nf nf' : SbStatus} {seen : Seen} {ev : SbStatus.Event}
    (hmem : nf'.addrspace = nf.addrspace) (hin : nf.InBounds → nf'.InBounds)
    (hwe : ev ≠ .set .we true) (hre : ev ≠ .set .re false) : Meets nf seen ev nf' := by
  refine ⟨hin, ?_, fun _ _ _ _ _ _ _ h => absurd h hre⟩
  rw [hmem]
  unfold expected
  split
  · exact absurd rfl hwe
  · rfl

/-- The pins that start no cycle. -/
theorem stepped_pin {nf : SbStatus} {seen : Seen} {pin : SbStatus.Pin} {state : Bool}
    (h : Inv nf seen) (hwe : pin ≠ .we) (hre : pin ≠ .re) :
    Meets nf seen (.set pin state) (nf.step (.set pin state)) ∧
      Inv (nf.step (.set pin state)) (seen.step nf (.set pin state)) := by
  have hquiet (nf' : SbStatus) (hmem : nf'.addrspace = nf.addrspace)
      (hin : nf.InBounds → nf'.InBounds) : Meets nf seen (.set pin state) nf' :=
    meets_of_quiet hmem hin (fun hc => hwe (by cases hc; rfl)) fun hc => hre (by cases hc; rfl)
  obtain ⟨hwp, harea, ht⟩ := h
  cases pin with
  | ce =>
    refine ⟨hquiet _ rfl id, hwp, harea, ht.unmoved ⟨rfl, rfl, rfl, rfl, rfl, ?_⟩⟩
    unfold SbStatus.step SbStatus.setCE
    dsimp only
    split
    · rename_i hc
      exact .inr (.inr (.inr ⟨hc.2, rfl⟩))
    · exact .inl rfl
  | cle =>
    refine ⟨hquiet _ rfl id, hwp, harea, ht.unmoved ⟨rfl, rfl, rfl, rfl, rfl, ?_⟩⟩
    unfold SbStatus.step SbStatus.setCLE
    dsimp only
    split
    · exact .inr (.inl rfl)
    · exact .inl rfl
  | ale =>
    refine ⟨hquiet _ rfl id, hwp, harea, ht.unmoved ⟨rfl, rfl, rfl, rfl, rfl, ?_⟩⟩
    unfold SbStatus.step SbStatus.setALE
    dsimp only
    split
    · exact .inr (.inr (.inl rfl))
    · exact .inl rfl
  | wp => exact ⟨hquiet _ rfl id, rfl, harea, ht.unmoved ⟨rfl, rfl, rfl, rfl, rfl, .inl rfl⟩⟩
  | we => exact absurd rfl hwe
  | re => exact absurd rfl hre

/-- The memory that a rising WE should leave when it is no command. -/
theorem expected_of_levels {nf : SbStatus} {seen : Seen}
    (h : ¬(seen.cle = true ∧ seen.ale = false)) :
    expected nf seen (.set .we true) = nf.addrspace :=
  if_neg fun hc => h hc.2.2

/-- A rising WE. -/
theorem stepped_latch {nf : SbStatus} {seen : Seen} (h : Inv nf seen) (hwe : nf.we = false)
    (hce : nf.ce = false) (hok : Proper nf seen (.set .we true)) :
    Meets nf seen (.set .we true) { nf.latch with we := true } ∧
      Inv { nf.latch with we := true } (seen.latch nf.iopin) := by
  have hok := hok hwe hce
  obtain ⟨hwp, harea, ht⟩ := h
  -- `we` is read by nothing that the invariant speaks of
  have hwe' {op : Op} (h : Tracks nf.latch op) : Tracks { nf.latch with we := true } op :=
    h.unmoved ⟨rfl, rfl, rfl, rfl, rfl, .inl rfl⟩
  have hquiet (hq : Quiet nf nf.latch) (hlevels : ¬(seen.cle = true ∧ seen.ale = false)) :
      Meets nf seen (.set .we true) { nf.latch with we := true } := by
    refine ⟨hq.inBounds, ?_, fun _ _ _ _ _ _ _ h => by cases h⟩
    rw [expected_of_levels hlevels]
    exact hq.mem
  cases hcle : seen.cle with
  | true =>
    cases hale : seen.ale with
    | true =>
      rw [hcle, hale] at hok
      exact hok.elim
    | false =>
      rw [hcle, hale] at hok
      obtain ⟨hcmd, hok⟩ := hok
      have hlatch : nf.latch = nf.doCmd := by
        unfold SbStatus.latch
        rw [hcmd]
      obtain ⟨ht', harea', hwp', hmem, hin⟩ := commanded ⟨hwp, harea, ht⟩ hcmd hok
      rw [← hlatch] at ht' hwp' hmem hin
      have hseen : seen.latch nf.iopin = { seen with
          area := (seen.op.command nf.iopin seen.area).1
          op := (seen.op.command nf.iopin seen.area).2 } := by
        unfold Seen.latch
        rw [hcle, hale]
      rw [hseen]
      refine ⟨⟨hin, ?_, fun _ _ _ _ _ _ _ h => by cases h⟩, hwp'.trans hwp, harea', hwe' ht'⟩
      exact hmem.trans (if_pos ⟨hwe, hce, hcle, hale⟩).symm
  | false =>
    have hlevels : ¬(seen.cle = true ∧ seen.ale = false) := fun h => by
      rw [hcle] at h
      cases h.1
    cases hale : seen.ale with
    | true =>
      rw [hcle, hale] at hok
      obtain ⟨haddr, hok⟩ := hok
      have hlatch : nf.latch = nf.doAddr := by
        unfold SbStatus.latch
        rw [haddr]
      have hq := doAddr_quiet nf
      have ht' := tracks_doAddr ht haddr hok
      rw [← hlatch] at hq ht'
      have hseen : seen.latch nf.iopin = { seen with op := seen.op.address nf.iopin } := by
        unfold Seen.latch
        rw [hcle, hale]
      rw [hseen]
      exact ⟨hquiet hq hlevels, hq.wp.trans hwp, harea, hwe' ht'⟩
    | false =>
      rw [hcle, hale] at hok
      obtain ⟨hcmd, haddr, hok⟩ := hok
      obtain ⟨ht', hq⟩ := tracks_dataIn ht hcmd haddr hok
      have hseen : seen.latch nf.iopin = { seen with op := seen.op.dataIn nf.iopin } := by
        unfold Seen.latch
        rw [hcle, hale]
      rw [hseen]
      exact ⟨hquiet hq hlevels, hq.wp.trans hwp, harea, hwe' ht'⟩

theorem output_ce (nf : SbStatus) : nf.output.ce = nf.ce := by
  unfold SbStatus.output
  split
  · unfold SbStatus.doRead
    split <;> rfl
  · unfold SbStatus.doReadID
    split <;> rfl
  · rfl
  · rfl

/-- A falling RE. -/
theorem stepped_output {nf : SbStatus} {seen : Seen} (h : Inv nf seen) (hre : nf.re = true)
    (hce : nf.ce = false) (hok : Proper nf seen (.set .re false)) :
    Meets nf seen (.set .re false) { nf.output with re := false } ∧
      Inv { nf.output with re := false } { seen with op := seen.op.dataOut } := by
  obtain ⟨hwp, harea, ht⟩ := h
  obtain ⟨ht', hq, hbyte⟩ := tracks_output ht fun area args count hop => by
    have hio := hok hre hce
    rwa [hop] at hio
  refine ⟨⟨hq.inBounds, hq.mem, fun area args count hop hfour _ _ _ hlt => ?_⟩,
    hq.wp.trans hwp, harea, ht'.unmoved ⟨rfl, rfl, rfl, rfl, rfl, .inl rfl⟩⟩
  unfold SbStatus.readio
  dsimp only
  rw [output_ce, if_pos hce]
  exact hbyte area args count hop hfour hlt

theorem stepped_we {nf : SbStatus} {seen : Seen} {state : Bool} (h : Inv nf seen)
    (hok : Proper nf seen (.set .we state)) :
    Meets nf seen (.set .we state) (nf.step (.set .we state)) ∧
      Inv (nf.step (.set .we state)) (seen.step nf (.set .we state)) := by
  by_cases hc : nf.we = false ∧ state = true ∧ nf.ce = false
  · obtain ⟨hwe, rfl, hce⟩ := hc
    have hstep : nf.step (.set .we true) = { nf.latch with we := true } := by
      unfold SbStatus.step SbStatus.setWE
      dsimp only
      rw [if_pos ⟨hwe, rfl, hce⟩]
    have hseen : seen.step nf (.set .we true) = seen.latch nf.iopin := if_pos ⟨hwe, rfl, hce⟩
    rw [hstep, hseen]
    exact stepped_latch h hwe hce hok
  · have hstep : nf.step (.set .we state) = { nf with we := state } := by
      unfold SbStatus.step SbStatus.setWE
      dsimp only
      rw [if_neg hc]
    have hseen : seen.step nf (.set .we state) = seen := if_neg hc
    obtain ⟨hwp, harea, ht⟩ := h
    rw [hstep, hseen]
    refine ⟨⟨id, ?_, fun _ _ _ _ _ _ _ h => by cases h⟩, hwp, harea,
      ht.unmoved ⟨rfl, rfl, rfl, rfl, rfl, .inl rfl⟩⟩
    unfold expected
    split
    · rename_i hev
      cases hev
      exact (if_neg fun h => hc ⟨h.1, rfl, h.2.1⟩).symm
    · rfl

theorem stepped_re {nf : SbStatus} {seen : Seen} {state : Bool} (h : Inv nf seen)
    (hok : Proper nf seen (.set .re state)) :
    Meets nf seen (.set .re state) (nf.step (.set .re state)) ∧
      Inv (nf.step (.set .re state)) (seen.step nf (.set .re state)) := by
  by_cases hc : nf.re = true ∧ state = false ∧ nf.ce = false
  · obtain ⟨hre, rfl, hce⟩ := hc
    have hstep : nf.step (.set .re false) = { nf.output with re := false } := by
      unfold SbStatus.step SbStatus.setRE
      dsimp only
      rw [if_pos ⟨hre, rfl, hce⟩]
    have hseen : seen.step nf (.set .re false) = { seen with op := seen.op.dataOut } :=
      if_pos ⟨hre, rfl, hce⟩
    rw [hstep, hseen]
    exact stepped_output h hre hce hok
  · have hstep : nf.step (.set .re state) = { nf with re := state } := by
      unfold SbStatus.step SbStatus.setRE
      dsimp only
      rw [if_neg hc]
    have hseen : seen.step nf (.set .re state) = seen := if_neg hc
    obtain ⟨hwp, harea, ht⟩ := h
    rw [hstep, hseen]
    refine ⟨⟨id, rfl, fun _ _ _ _ _ hre hce hev => ?_⟩, hwp, harea,
      ht.unmoved ⟨rfl, rfl, rfl, rfl, rfl, .inl rfl⟩⟩
    cases hev
    exact absurd ⟨hre, rfl, hce⟩ hc

theorem stepped_writeio {nf : SbStatus} {seen : Seen} (iodata : Byte) (h : Inv nf seen) :
    Meets nf seen (.writeio iodata) (nf.step (.writeio iodata)) ∧
      Inv (nf.step (.writeio iodata)) seen := by
  obtain ⟨hwp, harea, ht⟩ := h
  unfold SbStatus.step
  dsimp only
  split
  · exact ⟨meets_of_quiet rfl id nofun nofun, hwp, harea,
      ht.unmoved ⟨rfl, rfl, rfl, rfl, rfl, .inl rfl⟩⟩
  · exact ⟨meets_of_quiet rfl id nofun nofun, hwp, harea, ht⟩

/-- A proper call does what it should and leads from the invariant to the invariant. -/
theorem stepped {nf : SbStatus} {seen : Seen} {ev : SbStatus.Event} (h : Inv nf seen)
    (hok : Proper nf seen ev) :
    Meets nf seen ev (nf.step ev) ∧ Inv (nf.step ev) (seen.step nf ev) := by
  cases ev with
  | writeio iodata => exact stepped_writeio iodata h
  | set pin state =>
    cases pin with
    | ce => exact stepped_pin h nofun nofun
    | cle => exact stepped_pin h nofun nofun
    | ale => exact stepped_pin h nofun nofun
    | wp => exact stepped_pin h nofun nofun
    | we => exact stepped_we h hok
    | re => exact stepped_re h hok

/-! ## Runs -/

theorem inv_start (nf₀ : SbStatus) : Inv nf₀.start .start :=
  ⟨rfl, by decide, nofun, nofun, .inl rfl⟩

theorem Run.inv {nf₀ nf : SbStatus} {seen : Seen} (hrun : Run Proper nf₀ nf seen) :
    Inv nf seen := by
  induction hrun with
  | start => exact inv_start nf₀
  | step _ ev hok ih => exact (stepped ih hok).2

theorem Run.inBounds {nf₀ nf : SbStatus} {seen : Seen} (hrun : Run Proper nf₀ nf seen) :
    nf.InBounds := by
  induction hrun with
  | start => exact ⟨nofun, nofun⟩
  | step hrun ev hok ih => exact (stepped hrun.inv hok).1.inBounds ih

/-- In a run of proper cycles from power on every call keeps to the arrays and does what it
should. -/
theorem cycles_meet {nf₀ nf : SbStatus} {seen : Seen} (hrun : Run Proper nf₀ nf seen)
    {ev : SbStatus.Event} (hok : Proper nf seen ev) :
    (nf.step ev).InBounds ∧ Meets nf seen ev (nf.step ev) := by
  have hmeets := (stepped hrun.inv hok).1
  exact ⟨hmeets.inBounds hrun.inBounds, hmeets⟩

/-! ### Runs of given calls -/

/-- The calls one after the other. -/
def drive : List SbStatus.Event → SbStatus × Seen → SbStatus × Seen
  | [], s => s
  | ev :: evs, s => drive evs (s.1.step ev, s.2.step s.1 ev)

/-- Each of the calls is `ok` where it comes. -/
def Along (ok : SbStatus → Seen → SbStatus.Event → Prop) :
    List SbStatus.Event → SbStatus × Seen → Prop
  | [], _ => True
  | ev :: evs, s => ok s.1 s.2 ev ∧ Along ok evs (s.1.step ev, s.2.step s.1 ev)

theorem Run.drive {ok : SbStatus → Seen → SbStatus.Event → Prop} {nf₀ : SbStatus} :
    ∀ (evs : List SbStatus.Event) (s : SbStatus × Seen), Run ok nf₀ s.1 s.2 → Along ok evs s →
      Run ok nf₀ (SkyEye.Nand.drive evs s).1 (SkyEye.Nand.drive evs s).2
  | [], _, h, _ => h
  | ev :: evs, _, h, hok => Run.drive evs _ (h.step ev hok.1) hok.2

instance (nf : SbStatus) : (seen : Seen) → Decidable (ProperCommand nf seen)
  | ⟨_, _, _, _, .program _ _ _⟩ =>
    inferInstanceAs (Decidable ((_ → _) ∧ (_ → _) ∧ (_ → _ → _ → _)))
  | ⟨_, _, _, _, .none⟩ | ⟨_, _, _, _, .read _ _ _⟩ | ⟨_, _, _, _, .erase _⟩ =>
    inferInstanceAs (Decidable ((_ → _) ∧ (_ → _) ∧ True))

instance (nf : SbStatus) : (op : Op) → Decidable (ProperAddress nf op)
  | .none => isTrue trivial
  | .read _ _ _ => inferInstanceAs (Decidable (_ ∧ (_ → _ → _) ∧ (_ → _)))
  | .program _ _ _ => inferInstanceAs (Decidable ((_ → _ → _) ∧ (_ → _)))
  | .erase _ => inferInstanceAs (Decidable (_ → _))

instance (nf : SbStatus) (op : Op) : Decidable (ProperData nf op) :=
  inferInstanceAs (Decidable (_ → _ → _))

instance (nf : SbStatus) : (seen : Seen) → (ev : SbStatus.Event) → Decidable (Proper nf seen ev)
  | ⟨true, false, _, _, _⟩, .set .we true =>
    inferInstanceAs (Decidable (_ → _ → _ ∧ ProperCommand nf _))
  | ⟨false, true, _, _, _⟩, .set .we true =>
    inferInstanceAs (Decidable (_ → _ → _ ∧ ProperAddress nf _))
  | ⟨false, false, _, _, _⟩, .set .we true =>
    inferInstanceAs (Decidable (_ → _ → _ ∧ _ ∧ ProperData nf _))
  | ⟨true, true, _, _, _⟩, .set .we true => inferInstanceAs (Decidable (_ → _ → False))
  | ⟨_, _, _, _, .read _ _ _⟩, .set .re false => inferInstanceAs (Decidable (_ → _ → _ → _))
  | ⟨_, _, _, _, .none⟩, .set .re false | ⟨_, _, _, _, .program _ _ _⟩, .set .re false
  | ⟨_, _, _, _, .erase _⟩, .set .re false => inferInstanceAs (Decidable (_ → _ → True))
  | _, .set .we false | _, .set .re true | _, .set .ce _ | _, .set .cle _ | _, .set .ale _
  | _, .set .wp _ | _, .writeio _ => isTrue trivial

instance decidableAlong :
    (evs : List SbStatus.Event) → (s : SbStatus × Seen) → Decidable (Along Proper evs s)
  | [], _ => isTrue trivial
  | ev :: evs, s =>
    have := decidableAlong evs (s.1.step ev, s.2.step s.1 ev)
    inferInstanceAs (Decidable (_ ∧ _))

theorem along_true : ∀ (evs : List SbStatus.Event) (s : SbStatus × Seen),
    Along (fun _ _ _ => True) evs s
  | [], _ => trivial
  | _ :: evs, _ => ⟨trivial, along_true evs _⟩

/-- An erased flash. -/
def fresh : SbStatus :=
  ⟨0, 0, false, false, true, false, false, false, 0, .noStatus, .none, 0,
    fun _ => 0xff, 0, fun _ => 0xff, [], []⟩

/-- A byte at the pins with WE low. -/
def offered (b : Byte) : List SbStatus.Event := [.set .we false, .writeio b]

/-- A byte and the rising WE. -/
def latched (b : Byte) : List SbStatus.Event := offered b ++ [.set .we true]

/-- The four address cycles of the first byte of the device. -/
def firstByte : List SbStatus.Event :=
  [.set .cle false, .set .ale true] ++ latched 0 ++ latched 0 ++ latched 0 ++ latched 0 ++
    [.set .ale false]

/-- A program of one byte at the start of the device up to the rising WE of PAGEPROG. -/
def programStart (b : Byte) : List SbStatus.Event :=
  [.set .cle true] ++ latched cmdSeqIn ++ firstByte ++ latched b ++ [.set .cle true] ++
    offered cmdPageProg

/-- A read of that byte up to the falling RE. -/
def readStart : List SbStatus.Event := [.set .cle true] ++ latched cmdRead0 ++ firstByte

/-- A byte that is programmed and read back. -/
theorem cycles_meet_read_back :
    let s := drive ([.set .ce false] ++ programStart 0x55 ++ [.set .we true] ++ readStart)
      (fresh.start, .start)
    (s.1.step (.set .re false)).InBounds ∧
      Meets s.1 s.2 (.set .re false) (s.1.step (.set .re false)) ∧
      (s.1.step (.set .re false)).readio = 0x55 := by
  intro s
  have hrun : Run Proper fresh s.1 s.2 :=
    Run.drive _ (_, _) .start (by decide +kernel)
  have hok : Proper s.1 s.2 (.set .re false) := by decide +kernel
  obtain ⟨hin, hmeets⟩ := cycles_meet hrun hok
  exact ⟨hin, hmeets, by decide +kernel⟩

/-- A second program of the same byte goes to the next byte. -/
theorem second_program_moves :
    ¬∀ nf₀ nf seen, Run (fun _ _ _ => True) nf₀ nf seen → ∀ ev : SbStatus.Event,
      (nf.step ev).InBounds ∧ Meets nf seen ev (nf.step ev) := by
  intro h
  let evs := [.set .ce false] ++ programStart 0xaa ++ [.set .we true] ++ programStart 0x55
  have hstart : Run (fun _ _ _ => True) fresh fresh.start .start := .start
  have hrun := Run.drive evs (_, _) hstart (along_true _ _)
  have hmem := congrFun (h _ _ _ hrun (.set .we true)).2.mem 0
  exact absurd hmem (by decide +kernel)

end SkyEye.Nand
