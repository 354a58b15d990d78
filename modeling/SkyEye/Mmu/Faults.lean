import SkyEye.Mmu.Tlb
import SkyEye.Mmu.Translation

/-!
# The faults of a denied access

The architecture checks the descriptors, then the domain, then the permissions, and assigns
a fault to each. `check_access` raises the section domain fault for pages too: the comment
there weighs the figure of the data sheet against its table and follows the figure. The
permissions of System mode are those of `check_perms`, which counts it as User mode.
-/

namespace SkyEye

/-- What denies an access: a descriptor of one of the two levels, the domain or the permissions
of a section or of a page. -/
inductive Denial where
  | translation (level2 : Bool)
  | domain (page : Bool)
  | permission (page : Bool)
  deriving DecidableEq, Repr

/-- The fault that the architecture assigns. -/
def Denial.fault : Denial → Fault
  | translation false => .sectionTranslation
  | translation true => .pageTranslation
  | domain false => .sectionDomain
  | domain true => .pageDomain
  | permission false => .sectionPermission
  | permission true => .subpagePermission

/-- The fault with one code for the domain faults. -/
def Denial.raised : Denial → Fault
  | domain _ => .sectionDomain
  | c => c.fault

/-- User mode, of 26 or 32 bits, is not privileged. -/
def Cpu.privileged (cpu : Cpu) : Bool := cpu.mode != USER32MODE && cpu.mode != USER26MODE

/-- The accesses that the permission bits and the bits S and R allow. S with R is reserved and
stands for R. -/
def apAllows (s r privileged read : Bool) (ap : ARMword) : Bool :=
  match ap.toNat, s, r with
  | 0, false, false => false
  | 0, true, false => privileged && read
  | 0, _, true => read
  | 1, _, _ => privileged
  | 2, _, _ => privileged || read
  | _, _, _ => true

namespace MmuState

variable {U : Type} (m : MmuState U)

/-- The check of the domain, then of the permissions. -/
def accessDenial (privileged : Bool) (domain ap : ARMword) (page read : Bool) : Option Denial :=
  let access := (m.domainAccessControl >>> (domain * 2).toNat) &&& 3
  if access = 0 ∨ access = 2 then some (.domain page)
  else if access = 1 ∧
      apAllows (m.ctl CONTROL_SYSTEM) (m.ctl CONTROL_ROM) privileged read ap = false then
    some (.permission page)
  else none

/-- The access permission bits for `va`: those of a section, of a quarter of a large or of a
small page, or of another page. -/
def permissionBits (l1 l2 va : ARMword) : ARMword :=
  if l1 &&& 3 = 2 then (l1 >>> 10) &&& 3
  else if l2 &&& 3 = 1 then (l2 >>> (((va >>> 14) &&& 3).toNat * 2 + 4)) &&& 3
  else if l2 &&& 3 = 2 then (l2 >>> (((va >>> 10) &&& 3).toNat * 2 + 4)) &&& 3
  else (l2 >>> 4) &&& 3

/-- The domain field of a first-level descriptor. -/
def domainOf (l1 : ARMword) : ARMword := (l1 >>> 5) &&& 0xF

variable (isXScale privileged : Bool)

/-- What denies an access by the page tables. -/
def walkDenial (va : ARMword) (read : Bool) : Option Denial :=
  let l1 := m.l1desc va
  let l2 := m.l2desc va
  let page := l1 &&& 3 != 2
  if l1 &&& 3 = 0 then some (.translation false)
  else if page ∧ (l2 &&& 3 = 0 ∨ l1 &&& 3 = 1 ∧ l2 &&& 3 = 3 ∧ !isXScale) then
    some (.translation true)
  else m.accessDenial privileged (domainOf l1) (permissionBits l1 l2 va) page read

/-- What denies an access, and the domain of the descriptor that is involved: that of the
remembered entry if there is one, else the page tables'. -/
def denial (tlb : Tlb) (va : ARMword) (read : Bool) : Option Denial × ARMword :=
  match tlb.search va with
  | some e =>
    let ap := (e.perms >>> (subpage e va * 2 + 4)) &&& 3
    (m.accessDenial privileged e.domain ap (e.mapping != .sect) read, e.domain)
  | none => (m.walkDenial isXScale privileged va read, domainOf (m.l1desc va))

/-- The modes that `check_perms` takes for privileged. -/
def takenPrivileged (mode : ARMword) : Bool :=
  !(mode == USER32MODE || mode == USER26MODE || mode == SYSTEM32MODE)

theorem checkPerms_eq_apAllows (mode ap : ARMword) (read : Bool) (h4 : ap.toNat < 4) :
    m.checkPerms mode ap read =
      apAllows (m.ctl CONTROL_SYSTEM) (m.ctl CONTROL_ROM) (takenPrivileged mode) read ap := by
  unfold checkPerms apAllows takenPrivileged
  generalize (mode == USER32MODE || mode == USER26MODE || mode == SYSTEM32MODE) = user
  generalize m.ctl CONTROL_SYSTEM = s
  generalize m.ctl CONTROL_ROM = r
  generalize ap.toNat = n at h4
  interval_cases n <;> cases s <;> cases r <;> cases user <;> cases read <;> rfl

theorem apAllows_privileged {s r read : Bool} {ap : ARMword}
    (h : apAllows s r false read ap = true) : apAllows s r true read ap = true := by
  unfold apAllows at h ⊢
  generalize ap.toNat = n at h ⊢
  match n with
  | 0 => cases s <;> cases r <;> cases read <;> first | rfl | cases h
  | 1 => rfl
  | 2 => rfl
  | _ + 3 => rfl

/-- A privileged access is denied as another one is, or not at all. -/
theorem accessDenial_privileged (domain ap : ARMword) (page read : Bool) :
    m.accessDenial true domain ap page read = m.accessDenial false domain ap page read ∨
      m.accessDenial true domain ap page read = none := by
  unfold accessDenial
  dsimp only
  split
  · exact .inl rfl
  · split
    · rename_i h
      rw [if_pos ⟨h.1, Bool.eq_false_iff.mpr fun ha => by
        rw [apAllows_privileged ha] at h
        cases h.2⟩]
      exact .inl rfl
    · exact .inr rfl

theorem denial_privileged (tlb : Tlb) (va : ARMword) (read : Bool) :
    m.denial isXScale true tlb va read = m.denial isXScale false tlb va read ∨
      (m.denial isXScale true tlb va read).1 = none := by
  unfold denial walkDenial
  dsimp only
  split
  · exact (m.accessDenial_privileged ..).imp_left (congrArg (·, _))
  · split
    · exact .inl rfl
    · split
      · exact .inl rfl
      · exact (m.accessDenial_privileged ..).imp_left (congrArg (·, _))

theorem checkAccess_eq (mode va : ARMword) (e : TlbEntry) (read : Bool) :
    m.checkAccess mode va e read =
      (m.accessDenial (takenPrivileged mode) e.domain ((e.perms >>> (subpage e va * 2 + 4)) &&& 3)
        (e.mapping != .sect) read).map Denial.raised := by
  have hperms := m.checkPerms_eq_apAllows mode ((e.perms >>> (subpage e va * 2 + 4)) &&& 3) read
    (Nat.lt_of_le_of_lt (Word.toNat_and_low _ 2 (by decide)).le (Nat.mod_lt _ (by decide)))
  simp only [checkAccess, accessDenial, ← hperms]
  generalize (m.domainAccessControl >>> (e.domain * 2).toNat) &&& 3 = access
  generalize m.checkPerms mode ((e.perms >>> (subpage e va * 2 + 4)) &&& 3) read = permitted
  by_cases hd : access = 0 ∨ access = 2
  · rw [if_pos hd, if_pos hd]
    rfl
  · rw [if_neg hd, if_neg hd]
    by_cases h1 : access = 1
    · subst h1
      cases permitted <;> cases e.mapping <;> rfl
    · rw [if_neg h1, if_neg fun h => h1 h.1]
      rfl

/-- The permission bits of an entry that the walk makes. -/
theorem subpage_bits (l2 : ARMword) (n : Nat) (hn : n ≤ 3) :
    ((l2 &&& 0xFFC) >>> (n * 2 + 4)) &&& 3 = (l2 >>> (n * 2 + 4)) &&& 3 := by
  have hm : ((0xFFC : ARMword) >>> (n * 2 + 4)) &&& 3 = 3 := by
    interval_cases n <;> rfl
  rw [BitVec.ushiftRight_and_distrib, BitVec.and_assoc, hm]

/-- The walk past the first level: a translation fault of the second, or an entry with the
domain and the permission bits of its descriptors. -/
theorem decodeDescs_denial (x : Bool) (l1 l2 va : ARMword) (h : l1 &&& 3 ≠ 0) :
    (decodeDescs x l1 l2 va = .error ⟨.pageTranslation, some (domainOf l1)⟩ ∧
      (l1 &&& 3 != 2) = true ∧ (l2 &&& 3 = 0 ∨ l1 &&& 3 = 1 ∧ l2 &&& 3 = 3 ∧ !x)) ∨
    (∃ e, decodeDescs x l1 l2 va = .ok e ∧ e.domain = domainOf l1 ∧
      (e.perms >>> (subpage e va * 2 + 4)) &&& 3 = permissionBits l1 l2 va ∧
      (e.mapping != .sect) = (l1 &&& 3 != 2)) ∧
      ¬ ((l1 &&& 3 != 2) = true ∧ (l2 &&& 3 = 0 ∨ l1 &&& 3 = 1 ∧ l2 &&& 3 = 3 ∧ !x)) := by
  have hsub (a : ARMword) : (a &&& 3).toNat ≤ 3 := by
    rcases Word.and_three_cases a with h | h | h | h <;> rw [h] <;> decide
  have hlarge := subpage_bits l2 ((va >>> 14) &&& 3).toNat (hsub _)
  have hsmall := subpage_bits l2 ((va >>> 10) &&& 3).toNat (hsub _)
  have htiny := subpage_bits l2 0 (Nat.zero_le 3)
  have hsect : (l1 &&& 0xC0C) >>> 10 &&& 3 = l1 >>> 10 &&& 3 := by
    rw [BitVec.ushiftRight_and_distrib, BitVec.and_assoc]
    rfl
  rcases Word.and_three_cases l1 with h1 | h1 | h1 | h1
  · exact absurd h1 h
  · simp only [decodeDescs, permissionBits, h1]
    rcases Word.and_three_cases l2 with h2 | h2 | h2 | h2 <;> simp only [h2]
    · exact .inl ⟨rfl, rfl, .inl trivial⟩
    · exact .inr ⟨⟨_, rfl, rfl, hlarge, rfl⟩, by cases x <;> decide⟩
    · exact .inr ⟨⟨_, rfl, rfl, hsmall, rfl⟩, by cases x <;> decide⟩
    · cases x with
      | false => exact .inl ⟨rfl, rfl, .inr ⟨trivial, trivial, rfl⟩⟩
      | true => exact .inr ⟨⟨_, rfl, rfl, htiny, rfl⟩, by decide⟩
  · simp only [decodeDescs, permissionBits, h1]
    exact .inr ⟨⟨_, rfl, rfl, hsect, rfl⟩, fun hp => absurd hp.1 (by decide)⟩
  · simp only [decodeDescs, permissionBits, h1]
    rcases Word.and_three_cases l2 with h2 | h2 | h2 | h2 <;> simp only [h2]
    · exact .inl ⟨rfl, rfl, .inl trivial⟩
    · exact .inr ⟨⟨_, rfl, rfl, hlarge, rfl⟩, by cases x <;> decide⟩
    · exact .inr ⟨⟨_, rfl, rfl, hsmall, rfl⟩, by cases x <;> decide⟩
    · exact .inr ⟨⟨_, rfl, rfl, htiny, rfl⟩, by cases x <;> decide⟩

/-- The walk, checked as its descriptors say. -/
theorem walk_denial (cpu : Cpu) (va : ARMword) (read : Bool) :
    let d := m.walkDenial cpu.isXScale (takenPrivileged cpu.mode) va read
    (m.walk cpu.isXScale va = .error ⟨.pageTranslation, none⟩ ∧ d = some (.translation false)) ∨
    (m.walk cpu.isXScale va = .error ⟨.pageTranslation, some (domainOf (m.l1desc va))⟩ ∧
      d = some (.translation true)) ∨
    ∃ e, m.walk cpu.isXScale va = .ok e ∧ e.domain = domainOf (m.l1desc va) ∧
      m.checkAccess cpu.mode va e read = d.map Denial.raised := by
  intro d
  by_cases h : m.l1desc va &&& 3 = 0
  · exact .inl ⟨if_pos h, if_pos h⟩
  · rcases decodeDescs_denial cpu.isXScale _ (m.l2desc va) va h with
      ⟨hw, hp⟩ | ⟨⟨e, hw, hd, hb, hm⟩, hp⟩
    · exact .inr (.inl ⟨hw, (if_neg h).trans (if_pos hp)⟩)
    · refine .inr (.inr ⟨e, hw, hd, ?_⟩)
      rw [checkAccess_eq, hd, hb, hm]
      exact congrArg _ ((if_neg h).trans (if_neg hp)).symm

/-- An access is denied as the table says for the kind of mode that `check_perms` takes it for. -/
theorem authorise_denial (cpu : Cpu) (tlb : Tlb) (va : ARMword) (read : Bool) :
    let d := m.denial cpu.isXScale (takenPrivileged cpu.mode) tlb va read
    match m.authorise cpu tlb va read with
    | .ok _ => d.1 = none
    | .error f => ∃ c, d.1 = some c ∧ (c = .translation false ∨
        f = c.raised ∧ (m.translate cpu.isXScale tlb va).lastDomain = d.2) := by
  -- an entry is used that is checked as `d` says
  have hentry (e : TlbEntry) (d : Option Denial)
      (hc : m.checkAccess cpu.mode va e read = d.map Denial.raised) :
      (d = none ∧ m.checkAccess cpu.mode va e read = none) ∨
        ∃ c, d = some c ∧ m.checkAccess cpu.mode va e read = some c.raised := by
    cases d with
    | none => exact .inl ⟨rfl, hc⟩
    | some c => exact .inr ⟨c, rfl, hc⟩
  simp only [authorise, denial, MmuState.translate]
  cases hs : tlb.search va with
  | some e =>
    rcases hentry e _ (m.checkAccess_eq ..) with ⟨hd, hc⟩ | ⟨c, hd, hc⟩
    · simp only [hc, hd]
    · simp only [hc, hd]
      exact ⟨c, rfl, .inr ⟨rfl, trivial⟩⟩
  | none =>
    rcases m.walk_denial cpu va read with
      ⟨hw, hd⟩ | ⟨hw, hd⟩ | ⟨e, hw, hdom, hc⟩
    · simp only [hw, hd]
      exact ⟨_, rfl, .inl rfl⟩
    · simp only [hw, hd]
      exact ⟨_, rfl, .inr ⟨rfl, rfl⟩⟩
    · rcases hentry e _ hc with ⟨hd, hc⟩ | ⟨c, hd, hc⟩
      · simp only [hw, hc, hd]
      · simp only [hw, hc, hd]
        exact ⟨c, rfl, .inr ⟨rfl, hdom⟩⟩

theorem takenPrivileged_eq {cpu : Cpu} (h : cpu.mode ≠ SYSTEM32MODE) :
    takenPrivileged cpu.mode = cpu.privileged := by
  rw [takenPrivileged, Cpu.privileged, beq_eq_false_iff_ne.mpr h, Bool.or_false, Bool.not_or]
  rfl

/-- An access that goes through is one that the architecture allows. One that is denied is one
that it denies, System mode apart; past the first level the fault is the assigned one, but for
the one code of the domain faults, and the domain that of the descriptor. -/
theorem faults_classified (cpu : Cpu) (tlb : Tlb) (va : ARMword) (read : Bool) :
    let d := m.denial cpu.isXScale cpu.privileged tlb va read
    match m.authorise cpu tlb va read with
    | .ok _ => d.1 = none
    | .error f => cpu.mode = SYSTEM32MODE ∧ d.1 = none ∨
        ∃ c, d.1 = some c ∧ (c = .translation false ∨
          f = c.raised ∧ (m.translate cpu.isXScale tlb va).lastDomain = d.2) := by
  intro d
  have hden := m.authorise_denial cpu tlb va read
  by_cases hmode : cpu.mode = SYSTEM32MODE
  · have htaken : takenPrivileged cpu.mode = false := by rw [hmode]; rfl
    have hpriv : cpu.privileged = true := by rw [Cpu.privileged, hmode]; rfl
    rw [htaken] at hden
    have hd : d = m.denial cpu.isXScale true tlb va read :=
      congrArg (m.denial _ · tlb va read) hpriv
    rcases m.denial_privileged cpu.isXScale tlb va read with heq | hnone
    · rw [← hd] at heq
      rw [← heq] at hden
      cases hres : m.authorise cpu tlb va read with
      | ok => simpa only [hres] using hden
      | error f => exact .inr (by simpa only [hres] using hden)
    · rw [← hd] at hnone
      cases m.authorise cpu tlb va read with
      | ok => exact hnone
      | error f => exact .inl ⟨hmode, hnone⟩
  · rw [takenPrivileged_eq hmode] at hden
    cases hres : m.authorise cpu tlb va read with
    | ok => simpa only [hres] using hden
    | error f => exact .inr (by simpa only [hres] using hden)

/-- In a page of a domain without access the architecture assigns the page domain fault. -/
theorem page_domain_fault_misclassified :
    ¬ ∀ (m : MmuState Unit) (cpu : Cpu) (tlb : Tlb) (va : ARMword) (read : Bool) (f : Fault),
      m.authorise cpu tlb va read = .error f →
        ∃ c, (m.denial cpu.isXScale cpu.privileged tlb va read).1 = some c ∧ f = c.fault ∧
          (m.translate cpu.isXScale tlb va).lastDomain =
            (m.denial cpu.isXScale cpu.privileged tlb va read).2 := by
  intro h
  obtain ⟨c, hc, hf, -⟩ := h onePage ⟨SVC32MODE, false, false⟩ (Tlb.init 1 (by decide)) 0 true
    .sectionDomain (by decide +kernel)
  have hpage : (onePage.denial false true (Tlb.init 1 (by decide)) 0 true).1 =
      some (.domain true) := by decide +kernel
  obtain rfl := Option.some.inj (hc.symm.trans hpage)
  cases hf

end MmuState

end SkyEye
