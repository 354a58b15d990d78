import SkyEye.Nand.Observer
import Mathlib.Data.List.Basic
import Mathlib.Data.List.GetD
import Mathlib.Tactic.Ring

/-!
# Address and data-in cycles

Row cycles put their bytes from bit 9 up, and the last one makes 528-byte pages of the 512-byte
ones (`Addressing.last`). The write buffer takes the data where the pointer is.
-/

namespace SkyEye.Nand

/-! ## Rows -/

theorem page_lt : ∀ args : List Byte, page args < 256 ^ args.length
  | [] => Nat.one_pos
  | a :: args => by
    have ha := a.isLt
    have ih := page_lt args
    rw [page, List.length_cons, Nat.pow_succ]
    omega

theorem page_append (b : Byte) : ∀ args : List Byte,
    page (args ++ [b]) = page args + b.toNat * 256 ^ args.length
  | [] => by simp [page]
  | a :: args => by
    rw [List.cons_append, page, page, page_append b args, List.length_cons, Nat.pow_succ]
    ring

/-- A row cycle puts its byte above the earlier ones. -/
theorem or_row {rows : List Byte} {n : Nat} (hn : rows.length = n) (b : Byte) :
    page rows * 512 ||| b.toNat <<< (9 + 8 * n) = page (rows ++ [b]) * 512 := by
  have hlt : page rows * 512 < 2 ^ (9 + 8 * n) := by
    have h := page_lt rows
    rw [hn] at h
    have hpow : 2 ^ (9 + 8 * n) = 512 * 256 ^ n := by
      rw [Nat.pow_add, Nat.pow_mul]
    rw [hpow]
    omega
  have hpow : 2 ^ (9 + 8 * n) = 512 * 256 ^ n := by
    rw [Nat.pow_add, Nat.pow_mul]
  rw [Nat.or_comm, ← Nat.shiftLeft_add_eq_or_of_lt hlt, page_append, Nat.shiftLeft_eq, hpow, hn]
  ring

/-- The last row cycle of a page of the device. -/
theorem last_row {rows : List Byte} (hn : rows.length = 2) {b : Byte}
    (hpage : page (rows ++ [b]) < pagenum * blocknum) :
    (page rows * 512 ||| (b.toNat <<< 25) % 2 ^ 32) >>> 9 = page (rows ++ [b]) := by
  have hb : b.toNat <<< 25 < 2 ^ 32 := by
    have hpages : pagenum * blocknum = 131072 := rfl
    rw [page_append, hn] at hpage
    rw [Nat.shiftLeft_eq]
    omega
  rw [Nat.mod_eq_of_lt hb]
  have h := or_row hn b
  rw [h, Nat.shiftRight_eq_div_pow]
  omega

/-! ## The cycles of the code -/

section

variable {nf : SbStatus} {area : Nat} {args : List Byte}

theorem Addressing.next (h : Addressing nf area args) (haddr : nf.iostatus = .addr)
    (harea : area ∈ [0, 256, 512]) (hn : args.length < 3)
    (hspare : args = [] → area = 512 → nf.iopin.toNat < 16) :
    Addressing nf.doAddr area (args ++ [nf.iopin]) := by
  have hb := nf.iopin.isLt
  have hlim : area ≤ 512 := by
    simp only [List.mem_cons, List.not_mem_nil, or_false] at harea
    omega
  obtain ⟨hw, hs, ho, ha, hc⟩ := h
  unfold SbStatus.doAddr
  dsimp only
  rcases args with _ | ⟨a1, _ | ⟨a2, _ | ⟨a3, rest⟩⟩⟩
  · have hs : nf.cmdstatus = .addr1st := hs
    rw [hs]
    refine ⟨.inr haddr, rfl, ?_, (Nat.zero_mul 512).symm, fun _ h512 => ?_⟩
    · have hoff : nf.pageoffset = area := ho
      dsimp only [List.nil_append, column]
      rw [hoff, Nat.mod_eq_of_lt (by omega), Nat.add_comm]
    · have := hspare rfl h512
      dsimp only [List.nil_append, column]
      omega
  · have hs : nf.cmdstatus = .addr2nd := hs
    rw [hs]
    refine ⟨.inr haddr, rfl, ho, ?_, fun _ => hc (List.cons_ne_nil _ _)⟩
    dsimp only
    rw [ha]
    have h := @or_row [] 0 rfl nf.iopin
    exact h
  · have hs : nf.cmdstatus = .addr3rd := hs
    rw [hs]
    refine ⟨.inr haddr, rfl, ho, ?_, fun _ => hc (List.cons_ne_nil _ _)⟩
    dsimp only
    rw [ha]
    have h := @or_row [a2] 1 rfl nf.iopin
    exact h
  · rw [List.length_cons, List.length_cons, List.length_cons] at hn
    omega

theorem Addressing.last (h : Addressing nf area args) (harea : area ∈ [0, 256, 512])
    (hn : args.length = 3) (hpage : page (args.tail ++ [nf.iopin]) < pagenum * blocknum) :
    nf.doAddr = SbStatus.addressed { nf with
      address := page (args.tail ++ [nf.iopin]) * pagedumpsize + column area args } := by
  obtain ⟨a1, a2, a3, rfl⟩ : ∃ a1 a2 a3, args = [a1, a2, a3] := List.length_eq_three.mp hn
  obtain ⟨hw, hs, ho, ha, hc⟩ := h
  have hlim : area ≤ 512 := by
    simp only [List.mem_cons, List.not_mem_nil, or_false] at harea
    omega
  have hpages : pagenum * blocknum = 131072 := rfl
  have ha1 := a1.isLt
  have hs : nf.cmdstatus = .addr4th := hs
  unfold SbStatus.doAddr
  dsimp only
  rw [hs]
  dsimp only
  have hcol : column area [a1, a2, a3] < 768 := by
    dsimp only [column]
    omega
  dsimp only [List.tail_cons] at ha hpage ⊢
  have hlt : page ([a2, a3] ++ [nf.iopin]) * 528 + column area [a1, a2, a3] < 2 ^ 32 := by
    omega
  rw [ha, ho, last_row rfl hpage, Nat.mod_eq_of_lt hlt]

/-- What an address cycle leaves. -/
structure AddrKeeps (nf nf' : SbStatus) : Prop where
  wp : nf'.wp = nf.wp
  mem : nf'.addrspace = nf.addrspace
  backing : nf'.backing = nf.backing
  buffer : nf'.buffer = nf.buffer
  cmd : nf'.cmd = nf.cmd
  writebuffer : nf'.writebuffer = nf.writebuffer

theorem addressed_keeps (nf : SbStatus) : AddrKeeps nf nf.addressed := by
  unfold SbStatus.addressed
  split
  · exact ⟨rfl, rfl, rfl, rfl, rfl, rfl⟩
  split
  · exact ⟨rfl, rfl, rfl, rfl, rfl, rfl⟩
  split
  · exact ⟨rfl, rfl, rfl, rfl, rfl, rfl⟩
  split
  · exact ⟨rfl, rfl, rfl, rfl, rfl, rfl⟩
  · exact ⟨rfl, rfl, rfl, rfl, rfl, rfl⟩

theorem doAddr_keeps (nf : SbStatus) : AddrKeeps nf nf.doAddr := by
  unfold SbStatus.doAddr
  dsimp only
  split
  · exact ⟨rfl, rfl, rfl, rfl, rfl, rfl⟩
  · exact ⟨rfl, rfl, rfl, rfl, rfl, rfl⟩
  · exact ⟨rfl, rfl, rfl, rfl, rfl, rfl⟩
  · obtain ⟨h1, h2, h3, h4, h5, h6⟩ := addressed_keeps { nf with
      address := (((nf.address ||| (nf.iopin.toNat <<< 25) % 2 ^ 32) >>> 9) * 528 +
        nf.pageoffset) % 2 ^ 32 }
    exact ⟨h1, h2, h3, h4, h5, h6⟩
  · exact ⟨rfl, rfl, rfl, rfl, rfl, rfl⟩
  · exact ⟨rfl, rfl, rfl, rfl, rfl, rfl⟩

/-- With no operation an address cycle asks for no data. -/
theorem tracks_none_doAddr (ht : Tracks nf .none) (haddr : nf.iostatus = .addr) :
    Tracks nf.doAddr .none := by
  obtain ⟨-, -, hs | hcmd⟩ := ht
  · have hsame : nf.doAddr = nf := by
      unfold SbStatus.doAddr
      dsimp only
      rw [hs]
    rw [hsame, Tracks, haddr]
    exact ⟨by decide, by decide, .inl hs⟩
  · have hcmd' : nf.doAddr.cmd ∈ [cmdPageProg, cmdStatus, cmdReadID, cmdNone] := by
      rw [(doAddr_keeps nf).cmd]
      exact hcmd
    have hio : nf.doAddr.iostatus = .addr ∨ nf.doAddr.iostatus = .idRead := by
      unfold SbStatus.doAddr
      dsimp only
      split
      · exact .inl haddr
      · exact .inl haddr
      · exact .inl haddr
      · unfold SbStatus.addressed
        dsimp only
        simp only [List.mem_cons, List.not_mem_nil, or_false] at hcmd
        obtain h | h | h | h := hcmd
        · rw [h]
          exact .inl haddr
        · rw [h]
          exact .inl haddr
        · rw [h]
          exact .inr rfl
        · rw [h]
          exact .inl haddr
      · exact .inr rfl
      · exact .inl haddr
    refine ⟨?_, ?_, .inr hcmd'⟩ <;> rcases hio with h | h <;> rw [h] <;> decide

theorem areaCommand_read (harea : area ∈ [0, 256, 512]) :
    areaCommand area = cmdRead0 ∨ areaCommand area = cmdRead1 ∨ areaCommand area = cmdReadOob := by
  simp only [List.mem_cons, List.not_mem_nil, or_false] at harea
  obtain rfl | rfl | rfl := harea
  · exact .inl rfl
  · exact .inr (.inl rfl)
  · exact .inr (.inr rfl)

/-- The first data-out cycle gets the byte of the column. -/
theorem readAddress_zero (hspare : area = 512 → column area args < 528)
    (hlow : area ≤ column area args) :
    readAddress area args 0 = page args.tail * pagedumpsize + column area args := by
  unfold readAddress
  split
  · rename_i h
    subst h
    have := hspare rfl
    dsimp only
    have hdiv : (column 512 args - 512 + 0) / 16 = 0 := by omega
    have hmod : (column 512 args - 512 + 0) % 16 = column 512 args - 512 := by omega
    rw [hdiv, hmod, Nat.add_zero (page args.tail)]
    omega
  · exact Nat.add_zero _

theorem area_le_column (area : Nat) (args : List Byte) : area ≤ column area args := by
  cases args with
  | nil => exact le_refl area
  | cons a args => exact Nat.le_add_right area a.toNat

theorem tail_append (hn : args ≠ []) (b : Byte) : (args ++ [b]).tail = args.tail ++ [b] := by
  cases args with
  | nil => exact absurd rfl hn
  | cons a args => rfl

theorem column_append (hn : args ≠ []) (b : Byte) :
    column area (args ++ [b]) = column area args := by
  cases args with
  | nil => exact absurd rfl hn
  | cons a args => rfl

theorem column_lt (harea : area ∈ [0, 256, 512]) (hspare : area = 512 → column area args < 528) :
    column area args < pagedumpsize := by
  simp only [List.mem_cons, List.not_mem_nil, or_false] at harea
  obtain rfl | rfl | rfl := harea
  · cases args with
    | nil => decide
    | cons a args =>
      have := a.isLt
      dsimp only [column, pagedumpsize]
      omega
  · cases args with
    | nil => decide
    | cons a args =>
      have := a.isLt
      dsimp only [column, pagedumpsize]
      omega
  · exact hspare rfl

theorem tracks_read_doAddr {count : Nat} (ht : Tracks nf (.read area args count))
    (haddr : nf.iostatus = .addr) (hok : ProperAddress nf (.read area args count)) :
    Tracks nf.doAddr ((Op.read area args count).address nf.iopin) := by
  obtain ⟨hlt, hspare, hpage⟩ := hok
  obtain ⟨hcmd, harea, ⟨-, hcount, ha⟩ | ⟨hfour, -⟩⟩ := ht
  · rw [Op.address, if_pos hlt]
    refine ⟨(doAddr_keeps nf).cmd.trans hcmd, harea, ?_⟩
    rw [List.length_append, List.length_singleton]
    by_cases hthree : args.length = 3
    · have hne : args ≠ [] := fun h => by rw [h] at hthree; cases hthree
      refine .inr ⟨by omega, ?_⟩
      have hlast := ha.last harea hthree (hpage hthree)
      have hread : nf.doAddr = { nf with
          address := page (args.tail ++ [nf.iopin]) * pagedumpsize + column area args
          iostatus := .dataRead } := by
        rw [hlast, SbStatus.addressed, if_pos]
        dsimp only
        rw [hcmd]
        exact areaCommand_read harea
      have hstatus : nf.cmdstatus = .addr4th := by
        rw [ha.status, hthree]
        rfl
      rw [hread]
      refine ⟨⟨nofun, nofun, nofun⟩, hstatus, fun _ => .inl ?_⟩
      have hcol := @column_append area args hne nf.iopin
      dsimp only
      rw [hcount, readAddress_zero (fun h => hcol ▸ ha.spare hne h) (area_le_column _ _), hcol,
        tail_append hne]
    · exact .inl ⟨by omega, hcount, ha.next haddr harea (by omega) hspare⟩
  · omega

theorem tracks_program_doAddr {data : List Byte} (ht : Tracks nf (.program area args data))
    (haddr : nf.iostatus = .addr) (hok : ProperAddress nf (.program area args data)) :
    Tracks nf.doAddr ((Op.program area args data).address nf.iopin) := by
  obtain ⟨hspare, hpage⟩ := hok
  obtain ⟨hcmd, harea, ⟨hlt, hdata, ha, hfill⟩ | ⟨hfour, hl⟩⟩ := ht
  · rw [Op.address, if_pos hlt]
    refine ⟨(doAddr_keeps nf).cmd.trans hcmd, harea, ?_⟩
    rw [List.length_append, List.length_singleton]
    by_cases hthree : args.length = 3
    · have hne : args ≠ [] := fun h => by rw [h] at hthree; cases hthree
      refine .inr ⟨by omega, ?_⟩
      have hlast := ha.last harea hthree (hpage hthree)
      have hwrite : nf.doAddr = { nf with
          address := page (args.tail ++ [nf.iopin]) * pagedumpsize + column area args
          iostatus := .dataWrite
          cmdstatus := .addrFinish } := by
        rw [hlast, SbStatus.addressed]
        dsimp only
        rw [hcmd, if_neg (by decide), if_pos rfl]
      have hcol := @column_append area args hne nf.iopin
      have htail := tail_append hne nf.iopin
      have hoff : nf.pageoffset = column area (args ++ [nf.iopin]) := hcol ▸ ha.offset
      rw [hwrite]
      have hlt : column area (args ++ [nf.iopin]) < pagedumpsize := by
        rw [hcol]
        exact column_lt harea fun h => ha.spare hne h
      refine ⟨.inr (.inr rfl), rfl, hlt, ?_, ?_, ?_, ?_, fun _ j hj => ?_⟩
      · rw [htail]
        exact hpage hthree
      · dsimp only
        rw [htail, hcol]
      · rw [hdata]
        exact Nat.le_of_eq hoff
      · exact Nat.le_of_eq hoff |>.trans (Nat.le_of_lt hlt)
      · have h := hfill j hj
        rw [if_neg (by rw [List.length_nil]; omega)] at h
        rw [hdata, if_neg (by rw [List.length_nil]; omega)]
        exact h
    · refine .inl ⟨by omega, hdata, ha.next haddr harea (by omega) hspare, fun j hj => ?_⟩
      rw [(doAddr_keeps nf).writebuffer]
      exact hfill j hj
  · have hsame : nf.doAddr = nf := by
      unfold SbStatus.doAddr
      dsimp only
      rw [hl.status]
    rw [Op.address, if_neg (by omega), hsame]
    exact ⟨hcmd, harea, .inr ⟨hfour, hl⟩⟩

theorem tracks_erase_doAddr (ht : Tracks nf (.erase args)) (haddr : nf.iostatus = .addr)
    (hok : ProperAddress nf (.erase args)) :
    Tracks nf.doAddr ((Op.erase args).address nf.iopin) := by
  obtain ⟨hcmd, hw, hoff, ⟨hlt, ha, hs⟩ | ⟨hthree, hpage, ha, hs⟩⟩ := ht
  · rw [Op.address, if_pos hlt]
    refine ⟨(doAddr_keeps nf).cmd.trans hcmd, ?_⟩
    rcases args with _ | ⟨a1, _ | ⟨a2, _ | ⟨a3, rest⟩⟩⟩
    · have hs : nf.cmdstatus = .addr2nd := hs
      unfold SbStatus.doAddr
      dsimp only
      rw [hs]
      refine ⟨.inr haddr, hoff, .inl ⟨(by decide : 1 < 3), ?_, rfl⟩⟩
      dsimp only
      rw [ha]
      exact @or_row [] 0 rfl nf.iopin
    · have hs : nf.cmdstatus = .addr3rd := hs
      unfold SbStatus.doAddr
      dsimp only
      rw [hs]
      refine ⟨.inr haddr, hoff, .inl ⟨(by decide : 2 < 3), ?_, rfl⟩⟩
      dsimp only
      rw [ha]
      exact @or_row [a1] 1 rfl nf.iopin
    · have hs : nf.cmdstatus = .addr4th := hs
      have hpage := hok rfl
      have hpages : pagenum * blocknum = 131072 := rfl
      have hlt32 : page ([a1, a2] ++ [nf.iopin]) * 528 + 0 < 2 ^ 32 := by omega
      unfold SbStatus.doAddr
      dsimp only
      rw [hs]
      dsimp only
      unfold SbStatus.addressed
      dsimp only
      rw [hcmd, if_neg (by decide), if_neg (by decide), if_neg (by decide), if_pos rfl]
      refine ⟨.inl rfl, hoff, .inr ⟨rfl, hpage, ?_, rfl⟩⟩
      dsimp only
      rw [ha, hoff, last_row rfl hpage, Nat.mod_eq_of_lt hlt32, Nat.add_zero]
    · rw [List.length_cons, List.length_cons, List.length_cons] at hlt
      omega
  · have hsame : nf.doAddr = nf := by
      unfold SbStatus.doAddr
      dsimp only
      rw [hs]
    rw [Op.address, if_neg (by omega), hsame]
    exact ⟨hcmd, hw, hoff, .inr ⟨hthree, hpage, ha, hs⟩⟩

theorem tracks_doAddr {op : Op} (ht : Tracks nf op) (haddr : nf.iostatus = .addr)
    (hok : ProperAddress nf op) : Tracks nf.doAddr (op.address nf.iopin) := by
  cases op with
  | none => exact tracks_none_doAddr ht haddr
  | read area args count => exact tracks_read_doAddr ht haddr hok
  | program area args data => exact tracks_program_doAddr ht haddr hok
  | erase args => exact tracks_erase_doAddr ht haddr hok

/-- What a cycle that is no command has to leave. -/
structure Quiet (nf nf' : SbStatus) : Prop where
  wp : nf'.wp = nf.wp
  mem : nf'.addrspace = nf.addrspace
  inBounds : nf.InBounds → nf'.InBounds

theorem Quiet.refl (nf : SbStatus) : Quiet nf nf := ⟨rfl, rfl, id⟩

theorem doAddr_quiet (nf : SbStatus) : Quiet nf nf.doAddr := by
  obtain ⟨hwp, hmem, hbacking, hbuffer, -, -⟩ := doAddr_keeps nf
  refine ⟨hwp, hmem, fun h => ?_⟩
  rw [SbStatus.InBounds, hbacking, hbuffer]
  exact h

theorem Loading.dataIn {data : List Byte} (h : Loading nf area args data)
    (hok : nf.wp = true → nf.pageoffset < pagedumpsize) :
    Loading nf.doDataWrite area args (data ++ [nf.iopin]) ∧ Quiet nf nf.doDataWrite := by
  obtain ⟨hr, hs, hc, hp, ha, ho, hb, hf⟩ := h
  have hlen : (data ++ [nf.iopin]).length = data.length + 1 := by simp
  unfold SbStatus.doDataWrite
  cases hwp : nf.wp with
  | false =>
    refine ⟨⟨hr, hs, hc, hp, ha, by rw [hlen]; exact Nat.le_succ_of_le ho, hb, fun h => ?_⟩,
      .refl nf⟩
    have h : nf.pageoffset = column area args + (data ++ [nf.iopin]).length := h
    omega
  | true =>
    have hlt := hok hwp
    rw [if_pos rfl]
    have hnext : (nf.pageoffset + 1) % 2 ^ 16 = nf.pageoffset + 1 :=
      Nat.mod_eq_of_lt (Nat.lt_of_lt_of_le (Nat.succ_lt_succ hlt) (by decide))
    refine ⟨⟨hr, hs, hc, hp, ha, ?_, ?_, fun h j hj => ?_⟩, ⟨hwp.symm, rfl, fun hin => ⟨hin.1, ?_⟩⟩⟩
    · dsimp only
      rw [hnext, hlen]
      omega
    · dsimp only
      rw [hnext]
      exact hlt
    · dsimp only at h ⊢
      rw [hnext, hlen] at h
      have heq : nf.pageoffset = column area args + data.length := by omega
      have hj' := hf heq j hj
      rw [hlen]
      by_cases hjp : j = nf.pageoffset
      · rw [hjp, Function.update_self, if_pos (by omega), heq, Nat.add_sub_cancel_left]
        simp
      · rw [Function.update_of_ne hjp, hj']
        by_cases hin : column area args ≤ j ∧ j < column area args + data.length
        · rw [if_pos hin, if_pos (by omega), List.getD_append _ _ _ _ (by omega)]
        · rw [if_neg hin, if_neg (by omega)]
    · intro i hi
      rcases List.mem_cons.mp hi with rfl | hi
      · exact hlt
      · exact hin.2 i hi

theorem tracks_dataIn {op : Op} (ht : Tracks nf op) (hcmd : nf.iostatus ≠ .cmd)
    (haddr : nf.iostatus ≠ .addr) (hok : ProperData nf op) :
    Tracks nf.latch (op.dataIn nf.iopin) ∧ Quiet nf nf.latch := by
  have hidle (hw : nf.iostatus ≠ .dataWrite) : nf.latch = nf := by
    unfold SbStatus.latch
    split
    · exact absurd ‹_› hcmd
    · exact absurd ‹_› haddr
    · exact absurd ‹_› hw
    · rfl
  have hwaits (h : nf.iostatus = .cmd ∨ nf.iostatus = .addr) : False := h.elim hcmd haddr
  cases op with
  | none =>
    rw [hidle ht.2.1]
    exact ⟨ht, .refl nf⟩
  | read area args count =>
    obtain ⟨hc, harea, ⟨-, -, ha⟩ | ⟨hfour, hr⟩⟩ := ht
    · exact absurd ha.waits hwaits
    · rw [hidle hr.ready.1]
      exact ⟨⟨hc, harea, .inr ⟨hfour, hr⟩⟩, .refl nf⟩
  | erase args => exact absurd ht.2.waits hwaits
  | program area args data =>
    obtain ⟨hc, harea, ⟨-, -, ha, -⟩ | ⟨hfour, hl⟩⟩ := ht
    · exact absurd ha.waits hwaits
    · have hw : nf.iostatus = .dataWrite := (hl.ready.resolve_left hcmd).resolve_left haddr
      have hlatch : nf.latch = nf.doDataWrite := by
        unfold SbStatus.latch
        rw [hw]
      obtain ⟨hl', hq⟩ := hl.dataIn (hok (beq_iff_eq.mpr hfour))
      have hc' : nf.doDataWrite.cmd = cmdSeqIn := by
        unfold SbStatus.doDataWrite
        split
        · exact hc
        · exact hc
      rw [hlatch, Op.dataIn, if_pos hfour]
      exact ⟨⟨hc', harea, .inr ⟨hfour, hl'⟩⟩, hq⟩

end

end SkyEye.Nand
