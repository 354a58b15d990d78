import SkyEye.Nand.Cycles

/-!
# Command cycles

Only ERASE2 and PAGEPROG change the memory, when `cmd` and `cmdstatus` say that the addresses of
their operation are complete; the observer says the same (`Tracks.erase_ready`,
`Tracks.program_ready`).
-/

namespace SkyEye.Nand

variable {nf : SbStatus} {area : Nat} {args : List Byte}

/-- What a command cycle has to do. -/
structure Commanded (nf : SbStatus) (seen : Seen) (nf' : SbStatus) : Prop where
  tracks : Tracks nf' (seen.op.command nf.iopin seen.area).2
  area : (seen.op.command nf.iopin seen.area).1 ∈ [0, 256, 512]
  wp : nf'.wp = nf.wp
  mem : nf'.addrspace = seen.op.commandMem nf.iopin seen.wp nf.addrspace
  inBounds : nf.InBounds → nf'.InBounds

theorem commandMem_of_ne {op : Op} {b : Byte} {wp : Bool} {mem : Nat → Byte}
    (hp : b ≠ cmdPageProg) (he : b ≠ cmdErase2) : op.commandMem b wp mem = mem := by
  cases op with
  | none | read => rfl
  | program => exact if_neg fun h => hp h.1
  | erase => exact if_neg fun h => he h.1

/-- A page program ANDs the data in where they belong. -/
theorem Loading.finish {data : List Byte} (h : Loading nf area args data)
    (hfull : nf.pageoffset = column area args + data.length) :
    (fun i => if nf.address - nf.address % pagedumpsize ≤ i ∧
        i < nf.address - nf.address % pagedumpsize + pagedumpsize then
        nf.addrspace i &&& nf.writebuffer (i - (nf.address - nf.address % pagedumpsize))
      else nf.addrspace i) = programmed args data area nf.addrspace := by
  have hcol : column area args < 528 := h.inPage
  have hbound : nf.pageoffset ≤ 528 := h.bound
  have hbase : nf.address - nf.address % pagedumpsize = page args.tail * 528 := by
    rw [h.address]
    simp only [pagedumpsize]
    omega
  have hbuf : ∀ j < 528, nf.writebuffer j =
      if column area args ≤ j ∧ j < column area args + data.length then
        data.getD (j - column area args) 0xff
      else 0xff := h.filled hfull
  rw [hfull] at hbound
  funext i
  rw [hbase]
  unfold programmed
  simp only [pagedumpsize]
  generalize page args.tail * 528 = base
  by_cases hi : base ≤ i ∧ i < base + 528
  · rw [if_pos hi, hbuf _ (by omega)]
    by_cases hd : column area args ≤ i - base ∧ i - base < column area args + data.length
    · rw [if_pos hd, if_pos (by omega), Nat.sub_sub]
    · rw [if_neg hd, if_neg (by omega)]
      exact BitVec.and_allOnes
  · rw [if_neg hi, if_neg (by omega)]

theorem erase_base (p : Nat) :
    p * pagedumpsize - p * pagedumpsize % erasesize = p / pagenum * erasesize := by
  simp only [pagedumpsize, erasesize, pagenum]
  omega

/-- Which operations ERASE2 and PAGEPROG find complete. -/
theorem Tracks.erase_ready {op : Op} (ht : Tracks nf op) :
    (nf.cmd = cmdErase1 ∧ nf.cmdstatus = .addrFinish) ↔ ∃ args, op = .erase args ∧
      args.length = 3 := by
  cases op with
  | none =>
    refine iff_of_false (fun h => ?_) fun ⟨_, h, _⟩ => by cases h
    rcases ht.2.2 with hs | hc
    · rw [hs] at h
      cases h.2
    · rw [h.1] at hc
      exact absurd hc (by decide)
  | read area args count =>
    refine iff_of_false (fun h => ?_) fun ⟨_, h, _⟩ => by cases h
    have hc := areaCommand_read ht.2.1
    rw [← ht.1, h.1] at hc
    exact absurd hc (by decide)
  | program area args data =>
    refine iff_of_false (fun h => ?_) fun ⟨_, h, _⟩ => by cases h
    have hc : cmdErase1 = cmdSeqIn := h.1.symm.trans ht.1
    exact absurd hc (by decide)
  | erase args =>
    obtain ⟨hc, -, -, ⟨hlt, -, hs⟩ | ⟨hthree, -, -, hs⟩⟩ := ht
    · refine iff_of_false (fun h => ?_) fun ⟨_, h, hthree⟩ => by cases h; omega
      rw [hs] at h
      unfold stage at h
      split at h <;> cases h.2
    · exact iff_of_true ⟨hc, hs⟩ ⟨args, rfl, hthree⟩

theorem Tracks.program_ready {op : Op} (ht : Tracks nf op) :
    (nf.cmd = cmdSeqIn ∧ nf.cmdstatus = .addrFinish) ↔ ∃ area args data,
      op = .program area args data ∧ args.length = 4 := by
  cases op with
  | none =>
    refine iff_of_false (fun h => ?_) fun ⟨_, _, _, h, _⟩ => by cases h
    rcases ht.2.2 with hs | hc
    · rw [hs] at h
      cases h.2
    · rw [h.1] at hc
      exact absurd hc (by decide)
  | read area args count =>
    refine iff_of_false (fun h => ?_) fun ⟨_, _, _, h, _⟩ => by cases h
    have hc := areaCommand_read ht.2.1
    rw [← ht.1, h.1] at hc
    exact absurd hc (by decide)
  | program area args data =>
    obtain ⟨hc, -, ⟨hlt, -, ha, -⟩ | ⟨hfour, hl⟩⟩ := ht
    · refine iff_of_false (fun h => ?_) fun ⟨_, _, _, h, hfour⟩ => by cases h; omega
      rw [ha.status] at h
      unfold stage at h
      split at h <;> cases h.2
    · exact iff_of_true ⟨hc, hl.status⟩ ⟨area, args, data, rfl, hfour⟩
  | erase args =>
    refine iff_of_false (fun h => ?_) fun ⟨_, _, _, h, _⟩ => by cases h
    have hc : cmdSeqIn = cmdErase1 := h.1.symm.trans ht.1
    exact absurd hc (by decide)

theorem commanded_erase2 {seen : Seen} (h : Inv nf seen) (hcmd : nf.iostatus = .cmd)
    (hb : nf.iopin = cmdErase2) (hop : seen.op.command nf.iopin seen.area = (seen.area, .none)) :
    Commanded nf seen { (if nf.cmd = cmdErase1 ∧ nf.cmdstatus = .addrFinish then nf.doErase
      else nf) with cmd := cmdNone } := by
  have hnone (nf' : SbStatus) (hio : nf'.iostatus = nf.iostatus) (hc : nf'.cmd = cmdNone) :
      Tracks nf' (seen.op.command nf.iopin seen.area).2 := by
    rw [hop, Tracks, hio, hcmd]
    refine ⟨fun h => ?_, fun h => ?_, .inr (by rw [hc]; decide)⟩
    · cases h
    · cases h
  have harea : (seen.op.command nf.iopin seen.area).1 ∈ [0, 256, 512] := by
    rw [hop]
    exact h.area
  by_cases hready : nf.cmd = cmdErase1 ∧ nf.cmdstatus = .addrFinish
  · rw [if_pos hready]
    obtain ⟨args, hargs, hthree⟩ := h.tracks.erase_ready.mp hready
    have ht := h.tracks
    rw [hargs] at ht
    obtain ⟨-, -, -, ⟨hlt, -⟩ | ⟨-, hpage, haddr, -⟩⟩ := ht
    · omega
    unfold SbStatus.doErase
    cases hwp : nf.wp with
    | false =>
      refine ⟨hnone _ rfl rfl, harea, rfl, ?_, id⟩
      have hlow : ¬seen.wp = true := by
        rw [← h.wp, hwp]
        exact Bool.false_ne_true
      rw [hargs]
      exact (if_neg fun hc => hlow hc.2.2).symm
    | true =>
      have hbase := erase_base (page args)
      rw [if_pos rfl]
      refine ⟨hnone _ rfl rfl, harea, hwp.symm ▸ rfl, ?_, fun hin => ⟨fun r hr => ?_, hin.2⟩⟩
      · rw [hargs, Op.commandMem, if_pos ⟨hb, hthree, h.wp.symm.trans hwp⟩]
        dsimp only
        rw [haddr, hbase]
        rfl
      · rcases List.mem_cons.mp hr with rfl | hr
        · dsimp only
          rw [haddr, hbase]
          simp only [erasesize, devicesize, pagedumpsize, pagenum, blocknum] at hpage ⊢
          omega
        · exact hin.1 r hr
  · rw [if_neg hready]
    refine ⟨hnone _ rfl rfl, harea, rfl, ?_, id⟩
    cases hargs : seen.op with
    | none | read => rfl
    | program => exact (if_neg fun hc => absurd (hb.symm.trans hc.1) (by decide)).symm
    | erase args =>
      refine (if_neg fun hc => hready ?_).symm
      exact h.tracks.erase_ready.mpr ⟨args, hargs, hc.2.1⟩

theorem commanded_pageProg {seen : Seen} (h : Inv nf seen) (hcmd : nf.iostatus = .cmd)
    (hok : ProperCommand nf seen) (hb : nf.iopin = cmdPageProg)
    (hop : seen.op.command nf.iopin seen.area = (seen.area, seen.op.programEnd)) :
    Commanded nf seen (if nf.cmd = cmdSeqIn ∧ nf.cmdstatus = .addrFinish then
      SbStatus.finishWrite { nf with cmd := cmdPageProg } else nf) := by
  have harea : (seen.op.command nf.iopin seen.area).1 ∈ [0, 256, 512] := by
    rw [hop]
    exact h.area
  by_cases hready : nf.cmd = cmdSeqIn ∧ nf.cmdstatus = .addrFinish
  · rw [if_pos hready]
    obtain ⟨area, args, data, hargs, hfour⟩ := h.tracks.program_ready.mp hready
    have ht := h.tracks
    rw [hargs] at ht
    obtain ⟨-, -, ⟨hlt, -⟩ | ⟨-, hl⟩⟩ := ht
    · omega
    have hnone (nf' : SbStatus) (hio : nf'.iostatus = nf.iostatus) (hc : nf'.cmd = cmdPageProg) :
        Tracks nf' (seen.op.command nf.iopin seen.area).2 := by
      rw [hop, hargs, Op.programEnd, if_pos hfour, Tracks, hio, hcmd]
      refine ⟨fun h => ?_, fun h => ?_, .inr (by rw [hc]; decide)⟩
      · cases h
      · cases h
    unfold SbStatus.finishWrite
    dsimp only
    cases hwp : nf.wp with
    | false =>
      refine ⟨hnone _ rfl rfl, harea, hwp.symm ▸ rfl, ?_, id⟩
      have hlow : ¬seen.wp = true := by
        rw [← h.wp, hwp]
        exact Bool.false_ne_true
      rw [hargs]
      exact (if_neg fun hc => hlow hc.2.2).symm
    | true =>
      have hseen : seen.wp = true := h.wp.symm.trans hwp
      rw [if_pos rfl]
      refine ⟨hnone _ rfl rfl, harea, hwp.symm ▸ rfl, ?_, fun hin => ⟨fun r hr => ?_, hin.2⟩⟩
      · rw [hargs, Op.commandMem, if_pos ⟨hb, hfour, hseen⟩]
        have hfull := hok.2.2
        rw [hargs] at hfull
        exact hl.finish (hfull hb hfour hseen)
      · rcases List.mem_cons.mp hr with rfl | hr
        · have hpage := hl.inDevice
          have hcol := hl.inPage
          dsimp only
          rw [hl.address]
          simp only [erasesize, devicesize, pagedumpsize, pagenum, blocknum] at hpage hcol ⊢
          omega
        · exact hin.1 r hr
  · rw [if_neg hready]
    have hend : seen.op.programEnd = seen.op ∧
        seen.op.commandMem nf.iopin seen.wp nf.addrspace = nf.addrspace := by
      cases hargs : seen.op with
      | none | read => exact ⟨rfl, rfl⟩
      | erase => exact ⟨rfl, if_neg fun hc => absurd (hb.symm.trans hc.1) (by decide)⟩
      | program area args data =>
        have hfour : args.length ≠ 4 := fun hfour =>
          hready (h.tracks.program_ready.mpr ⟨area, args, data, hargs, hfour⟩)
        exact ⟨if_neg hfour, if_neg fun hc => hfour hc.2.1⟩
    refine ⟨?_, harea, rfl, hend.2.symm, id⟩
    rw [hop, hend.1]
    exact h.tracks

/-- A command that leaves the memory. -/
theorem Commanded.of_quiet {seen : Seen} {nf' : SbStatus} {area : Nat} {op : Op}
    (hop : seen.op.command nf.iopin seen.area = (area, op)) (harea : area ∈ [0, 256, 512])
    (ht : Tracks nf' op) (hq : Quiet nf nf') (hp : nf.iopin ≠ cmdPageProg)
    (he : nf.iopin ≠ cmdErase2) : Commanded nf seen nf' := by
  refine ⟨?_, ?_, hq.wp, hq.mem.trans (commandMem_of_ne hp he).symm, hq.inBounds⟩
  · rw [hop]
    exact ht
  · rw [hop]
    exact harea

theorem commanded_read {seen : Seen} {b : Byte} (harea : area ∈ [0, 256, 512])
    (hb : nf.iopin = areaCommand area)
    (hop : seen.op.command nf.iopin seen.area = (area, .read area [] 0))
    (hb' : b = areaCommand area) : Commanded nf seen (nf.expect b .addr1st area) := by
  have hquiet : nf.iopin ≠ cmdPageProg ∧ nf.iopin ≠ cmdErase2 := by
    rw [hb]
    rcases areaCommand_read harea with h | h | h <;> rw [h] <;> decide
  exact .of_quiet hop harea
    ⟨hb', harea, .inl ⟨by decide, rfl, .inr rfl, rfl, rfl, (Nat.zero_mul 512).symm,
      fun h => absurd rfl h⟩⟩
    ⟨rfl, rfl, id⟩ hquiet.1 hquiet.2

theorem tracks_seqIn {area : Nat} (harea : area ∈ [0, 256, 512]) (hoff : nf.pageoffset = area) :
    Tracks { nf.expect cmdSeqIn .addr1st nf.pageoffset with
      writebuffer := SbStatus.clearBuffer nf.writebuffer } (.program area [] []) := by
  refine ⟨rfl, harea, .inl ⟨by decide, rfl, ⟨.inr rfl, rfl, hoff, (Nat.zero_mul 512).symm,
    fun h => absurd rfl h⟩, fun j hj => ?_⟩⟩
  rw [if_neg (by rw [List.length_nil]; omega)]
  exact if_pos hj

theorem commanded {seen : Seen} (h : Inv nf seen) (hcmd : nf.iostatus = .cmd)
    (hok : ProperCommand nf seen) : Commanded nf seen nf.doCmd := by
  obtain ⟨hseq, hreset, hprog⟩ := hok
  have hidle (cmd : Byte) (hcmd : cmd ∈ [cmdPageProg, cmdStatus, cmdReadID, cmdNone])
      (nf' : SbStatus) (hio : nf'.iostatus ≠ .dataRead ∧ nf'.iostatus ≠ .dataWrite)
      (hc : nf'.cmd = cmd) : Tracks nf' .none := ⟨hio.1, hio.2, .inr (hc ▸ hcmd)⟩
  unfold SbStatus.doCmd
  dsimp only
  by_cases h0 : nf.iopin = cmdRead0
  · rw [if_pos h0]
    exact commanded_read (by decide) h0 (by rw [h0]; rfl) rfl
  rw [if_neg h0]
  by_cases h1 : nf.iopin = cmdRead1
  · rw [if_pos h1]
    exact commanded_read (by decide) h1 (by rw [h1]; rfl) rfl
  rw [if_neg h1]
  by_cases h2 : nf.iopin = cmdReadOob
  · rw [if_pos h2]
    exact commanded_read (by decide) h2 (by rw [h2]; rfl) rfl
  rw [if_neg h2]
  by_cases h3 : nf.iopin = cmdReset
  · rw [if_pos h3]
    have hop : seen.op.command nf.iopin seen.area = (0, .none) := by
      rw [h3]
      rfl
    have ht : Tracks nf.reset .none := ⟨nofun, nofun, .inl rfl⟩
    have hwp : nf.reset.wp = nf.wp := (h.wp.trans (hreset h3)).symm
    refine .of_quiet hop (by decide) ht ⟨hwp, rfl, id⟩ ?_ ?_ <;> rw [h3] <;> decide
  rw [if_neg h3]
  by_cases h4 : nf.iopin = cmdSeqIn
  · rw [if_pos h4]
    have ht := tracks_seqIn h.area (hseq h4)
    refine .of_quiet (by rw [h4]; rfl) h.area ht ⟨rfl, rfl, id⟩ ?_ ?_ <;> rw [h4] <;> decide
  rw [if_neg h4]
  by_cases h5 : nf.iopin = cmdErase1
  · rw [if_pos h5]
    have ht : Tracks (nf.expect cmdErase1 .addr2nd 0) (.erase []) :=
      ⟨rfl, .inr rfl, rfl, .inl ⟨by decide, (Nat.zero_mul 512).symm, rfl⟩⟩
    refine .of_quiet (by rw [h5]; rfl) h.area ht ⟨rfl, rfl, id⟩ ?_ ?_ <;> rw [h5] <;> decide
  rw [if_neg h5]
  by_cases h6 : nf.iopin = cmdErase2
  · rw [if_pos h6]
    exact commanded_erase2 h hcmd h6 (by rw [h6]; rfl)
  rw [if_neg h6]
  by_cases h7 : nf.iopin = cmdStatus
  · rw [if_pos h7]
    refine .of_quiet (by rw [h7]; rfl) h.area (hidle cmdStatus (by decide) _ ⟨nofun, nofun⟩ rfl)
      ⟨rfl, rfl, id⟩ ?_ h6
    rw [h7]
    decide
  rw [if_neg h7]
  by_cases h8 : nf.iopin = cmdReadID
  · rw [if_pos h8]
    refine .of_quiet (by rw [h8]; rfl) h.area (hidle cmdReadID (by decide) _ ⟨nofun, nofun⟩ rfl)
      ⟨rfl, rfl, id⟩ ?_ h6
    rw [h8]
    decide
  rw [if_neg h8]
  by_cases h9 : nf.iopin = cmdPageProg
  · rw [if_pos h9]
    exact commanded_pageProg h hcmd ⟨hseq, hreset, hprog⟩ h9 (by rw [h9]; rfl)
  · have hno : ¬(nf.iopin = cmdErase2 ∨ nf.iopin = cmdStatus ∨ nf.iopin = cmdReadID) := by
      rintro (h | h | h)
      · exact h6 h
      · exact h7 h
      · exact h8 h
    have hop : seen.op.command nf.iopin seen.area = (seen.area, seen.op) := by
      rw [Op.command, if_neg h0, if_neg h1, if_neg h2, if_neg h3, if_neg h4, if_neg h5,
        if_neg hno, if_neg h9]
    rw [if_neg h9]
    exact .of_quiet hop h.area h.tracks (.refl nf) h9 h6

end SkyEye.Nand
