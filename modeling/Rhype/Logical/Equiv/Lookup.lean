import Rhype.Htab.Equiv.InBounds
import Rhype.Logical.Equiv.Translate
import Rhype.Logical.Lookup

/-!
# Which lookups stay inside the chunk table

`laddr_to_lci` shifts the address and reads the chunk table; neither it nor the hypercalls check the
index.  `Looks` gives the addresses that a call gets to look up, and `xlate_inChunkTable_iff` says
that a call stays inside the table exactly when all of them are below `MAX_LOGICAL_ADDRESS`.
-/

namespace Rhype

open Avoids

def ChunkTable (t : Table) : Prop := t = .chunk

theorem not_chunkTable_psm : ¬ ChunkTable .psm := nofun

theorem safeAt_chunkTable (ht : Htab) (i : Nat) : ht.SafeAt ChunkTable i := .inl ⟨nofun, nofun⟩

/-! ### The addresses that are looked up -/

/-- `H_PUT_TCE` of the device gets as far as the translation of its entry. -/
def PutReaches (d : Devices) (o : OsId) (liobn : BitVec 32) (ioba : Uval) : Prop :=
  match viosGet (vioType liobn) with
  | some .hw => ∃ hba, hbaGet d.hbaList (liobn.setWidth 64) = .ok hba
  | some .llan => ∃ l, xirGetDevice d.llan liobn = some l ∧ ¬ l.llSize - pgsize < ioba ∧
      l.llTceData.tTce.isSome = true ∧ tcePage ioba < l.llTceData.entries
  | some .crq => ∃ cp, xirGetDevice d.crq liobn = some cp ∧ cp.cpOs = some o ∧
      cp.cpTceData.tTce.isSome = true ∧ tcePage ioba < cp.cpTceData.entries
  | _ => False

/-- The call of partition `o` looks the address `a` up. -/
def Looks (h : Hype) (d : Devices) (o : OsId) : XlateCall → Uval → Prop
  | .enter flags _ vsidWord rpnWord, a =>
    ∃ os pgshift lpbits, h.os o = some os ∧ checkUnsup flags = false ∧
      pageShift os (.ofWords vsidWord rpnWord) = some (pgshift, lpbits) ∧
      a = logicalRpn (.ofWords vsidWord rpnWord) pgshift <<< logPgsize
  | .grant _ logicalLo _ dest, a =>
    (h.os dest).isSome = true ∧ (h.os o).isSome = true ∧ a = logicalLo
  | .putTce liobn ioba tceDword, a =>
    (h.os o).isSome = true ∧ PutReaches d o liobn ioba ∧ a = Tce.pageAddr ⟨tceDword⟩
  | .pageInit _ destination source, a =>
    (h.os o).isSome = true ∧ (a = destination ∨
      a = source ∧ ∃ pa, logicalToPhysicalAddress h o destination pgsize = .ok pa)

/-! ### Lookups -/

section

variable {h : Hype} {d : Devices} {o dest : OsId} {os : Os} {a len : Uval}

theorem laddrToLci_inBounds_iff :
    InBounds ChunkTable (laddrToLci os a) ↔ a.toNat < maxLogicalAddress.toNat := by
  have hiff : chunkNumberAddr a < maxLogicalMemChunks ↔ a.toNat < maxLogicalAddress.toNat := by
    rw [chunkNumberAddr_eq, toNat_maxLogicalAddress, maxLogicalMemChunks]
    omega
  rw [← hiff]
  constructor
  · intro hb
    by_contra hlt
    refine hb (.bounds .chunk (chunkNumberAddr a)) ?_ ⟨_, _, rfl, rfl⟩
    rw [laddrToLci, Os.slot, if_neg hlt]
  · exact fun hlt => .slot os (.inr hlt)

theorem logicalToPhysicalAddress_inBounds_iff :
    InBounds ChunkTable (logicalToPhysicalAddress h o a len) ↔
      ((h.os o).isSome = true → a.toNat < maxLogicalAddress.toNat) := by
  unfold logicalToPhysicalAddress
  rcases hos : h.os o with _ | os
  · exact iff_of_true (.live none) nofun
  rw [live, ok_bind]
  refine (bind_iff_left fun oc => ?_).trans (laddrToLci_inBounds_iff.trans ?_)
  · cases oc with
    | none => exact .ok _
    | some c => exact InBounds.lciTranslate not_chunkTable_psm _ _ _ _
  · exact ⟨fun hlt _ => hlt, fun hlt => hlt rfl⟩

/-! ### `H_ENTER` -/

theorem hEnter_lookup_iff {flags ptex vsidWord rpnWord : Uval} :
    InBounds ChunkTable (hEnter h o flags ptex vsidWord rpnWord) ↔
      ∀ a, Looks h d o (.enter flags ptex vsidWord rpnWord) a →
        a.toNat < maxLogicalAddress.toNat := by
  have hpsm := not_chunkTable_psm
  unfold hEnter Looks
  rcases hos : h.os o with _ | os
  · exact iff_of_true (.bind (InBounds.live _) nofun) nofun
  rw [live, ok_bind]
  dsimp only
  by_cases hunsup : checkUnsup flags = true
  · rw [if_pos hunsup]
    refine iff_of_true (.ok _) ?_
    rintro a ⟨_, _, _, _, hno, _⟩
    rw [hunsup] at hno
    cases hno
  rw [if_neg hunsup]
  rcases hshift : pageShift os (.ofWords vsidWord rpnWord) with _ | sl
  · refine iff_of_true (.ok _) ?_
    rintro a ⟨os', _, _, heq, _, hshift', _⟩
    cases heq
    rw [hshift] at hshift'
    cases hshift'
  obtain ⟨pgshift, lpbits⟩ := sl
  -- nothing behind the lookup reads the chunk table
  refine (bind_iff_left fun oc => ?_).trans (laddrToLci_inBounds_iff.trans ?_)
  · rcases oc with _ | c
    · exact .ok _
    refine .bind (InBounds.lciTranslate hpsm _ _ _ _) fun raddr _ => ?_
    split_ifs
    · exact .ok _
    · exact .ok _
    · exact .ok _
    all_goals
      exact .bind (InBounds.amoCheckWimg hpsm _ _ _) fun _ _ =>
        InBounds.enterLoop hpsm _ _ hos _ _ _ _ _ fun j _ _ => safeAt_chunkTable _ _
  · constructor
    · rintro hlt a ⟨os', _, _, heq, _, hshift', rfl⟩
      cases heq
      rw [hshift] at hshift'
      cases hshift'
      exact hlt
    · exact fun hall => hall _ ⟨os, pgshift, lpbits, rfl, by simpa using hunsup, hshift, rfl⟩

/-! ### `H_GRANT_LOGICAL` -/

theorem findRes_inBounds {α : Type} {f : ResId → SysResource → Hv (Option α)}
    (hf : ∀ r sr, InBounds ChunkTable (f r sr)) :
    ∀ fuel curr, InBounds ChunkTable (findRes h o f fuel curr)
  | 0, _ => .error nofun
  | fuel + 1, curr => by
    unfold findRes
    split_ifs
    · exact .ok _
    cases curr with
    | osRes r =>
      refine .bind (InBounds.live _) fun sr _ => .bind (hf r sr) fun x _ => ?_
      cases x with
      | none => exact findRes_inBounds hf fuel _
      | some a => exact .ok _
    | siblings | children | poResources | todo => exact .error nofun

theorem resourceConflict_inBounds (r : ResId) : InBounds ChunkTable (resourceConflict h o r) := by
  refine .bind (InBounds.live _) fun _ _ => .bind (InBounds.live _) fun sr _ =>
    .bind_ok (findRes_inBounds (fun r' sr' => ?_) _ _) _
  split_ifs
  · refine .bind ?_ fun b _ => ?_
    · exact .bind (InBounds.live _) fun _ _ => .bind (InBounds.live _) fun _ _ =>
        .bind (InBounds.hassert _) fun _ _ => .bind_ok (InBounds.hassert _) _
    · split_ifs <;> exact .ok _
  · exact .ok _

theorem physMemExport_inBounds (c : LciId) (lci : Lci) (size : Uval) :
    InBounds ChunkTable (physMemExport h c lci a size) := by
  unfold physMemExport
  split_ifs
  · exact .ok _
  · exact .bind_ok (InBounds.live _) _

theorem exportFn_inBounds (c : LciId) (size : Uval) :
    InBounds ChunkTable (exportFn h c a size) := by
  refine .bind (InBounds.live _) fun lci _ => ?_
  cases lci.lciOps with
  | physMem => exact physMemExport_inBounds c lci size
  | psm =>
    refine .bind (InBounds.hassert _) fun _ _ => .bind (InBounds.live _) fun psm _ =>
      .bind (InBounds.nonNull _) fun q _ => .bind (InBounds.live _) fun parent _ => ?_
    dsimp only
    split_ifs
    · exact .ok _
    · cases parent.lciOps with
      | physMem => exact physMemExport_inBounds q parent size
      | psm => exact .error nofun

theorem rescindFn_inBounds (type : ResType) (r : ResId) :
    InBounds ChunkTable (rescindFn h type r) := by
  cases type with
  | mem t => exact .bind_ok (InBounds.live _) _
  | intrSrc => exact .ok _

theorem insertResource_inBounds (r : ResId) : InBounds ChunkTable (insertResource h r o) := by
  rw [insertResource_eq]
  refine .bind (InBounds.live _) fun sr _ => ?_
  cases sr.srParent with
  | none => exact .ok _
  | some q =>
    refine .bind (InBounds.live _) fun parent _ => ?_
    split_ifs <;> exact .ok _

theorem memGrant_inBounds_iff {size : Uval} :
    InBounds ChunkTable (memGrant h o a size dest) ↔
      ((h.os o).isSome = true → a.toNat < maxLogicalAddress.toNat) := by
  unfold memGrant
  rcases hos : h.os o with _ | os
  · exact iff_of_true (.bind (InBounds.live _) nofun) nofun
  rw [live, ok_bind]
  refine (bind_iff_left fun oc => ?_).trans (laddrToLci_inBounds_iff.trans ?_)
  · rcases oc with _ | c
    · exact .ok _
    refine .bind (exportFn_inBounds c size) fun x _ => ?_
    dsimp only
    split_ifs
    · exact .ok _
    · refine .bind (InBounds.nonNull _) fun n _ =>
        .bind (resourceConflict_inBounds n) fun err _ => ?_
      split_ifs <;> exact .ok _
  · exact ⟨fun hlt _ => hlt, fun hlt => hlt rfl⟩

theorem hGrantLogical_lookup_iff {type : MemType} {lo length : Uval} :
    InBounds ChunkTable (hGrantLogical h o type lo length dest) ↔
      ∀ a, Looks h d o (.grant type lo length dest) a → a.toNat < maxLogicalAddress.toNat := by
  unfold hGrantLogical grantResource Looks
  split_ifs with hdest
  · refine iff_of_true (.ok _) ?_
    rintro a ⟨hsome, -⟩
    rw [Option.isNone_iff_eq_none] at hdest
    rw [hdest] at hsome
    cases hsome
  refine (bind_iff_left fun x => ?_).trans ((bind_iff_left fun x => ?_).trans
    (memGrant_inBounds_iff.trans ?_))
  · dsimp only
    split_ifs <;> exact .ok _
  · dsimp only
    split_ifs
    · exact .ok _
    refine .bind (InBounds.nonNull _) fun r _ =>
      .bind (InBounds.live _) fun sr _ => ?_
    split_ifs
    · exact .bind_ok (rescindFn_inBounds _ _) _
    refine .bind (insertResource_inBounds _) fun y _ => ?_
    split_ifs
    · exact .ok _
    · exact .bind_ok (rescindFn_inBounds _ _) _
  · have hsome : (h.os dest).isSome = true := Option.isSome_iff_ne_none.2 (by simpa using hdest)
    constructor
    · rintro hlt a ⟨-, ho, rfl⟩
      exact hlt ho
    · exact fun hall ho => hall lo ⟨hsome, ho, rfl⟩

/-! ### `H_PUT_TCE` -/

theorem TceData.put_inBounds (td : TceData) (pg : Int) (x : Tce) :
    InBounds ChunkTable (td.put pg x) := by
  refine .bind (InBounds.nonNull _) fun _ _ => ?_
  split_ifs
  · exact .ok _
  · exact InBounds.bounds nofun _

variable {td : TceData} {liobn : BitVec 32} {ioba : Uval} {ltce : Tce}

theorem tcePut_inBounds_iff :
    InBounds ChunkTable (tcePut h o td ioba ltce) ↔
      (tcePage ioba < td.entries → (h.os o).isSome = true →
        ltce.pageAddr.toNat < maxLogicalAddress.toNat) := by
  unfold tcePut
  by_cases hpg : tcePage ioba < td.entries
  · rw [decide_eq_true hpg, hassert, if_pos rfl, ok_bind]
    refine (bind_iff_left fun pa => ?_).trans
      (logicalToPhysicalAddress_inBounds_iff.trans ⟨fun hlt _ => hlt, fun hlt => hlt hpg⟩)
    split_ifs
    · exact .ok _
    · exact .bind_ok (TceData.put_inBounds _ _ _) _
  · rw [decide_eq_false hpg]
    exact iff_of_true (.error (by rintro ⟨-, -, -, ⟨⟩⟩)) fun hlt => absurd hlt hpg

/-- The part that the two kinds of virtual devices have in common. -/
theorem deviceTcePut_inBounds_iff {β : Type}
    {f : Sval × TceData → Hv β} (hf : ∀ x, InBounds ChunkTable (f x)) :
    InBounds ChunkTable (hassert td.tTce.isSome >>= fun _ => tcePut h o td ioba ltce >>= f) ↔
      (td.tTce.isSome = true ∧ tcePage ioba < td.entries → (h.os o).isSome = true →
        ltce.pageAddr.toNat < maxLogicalAddress.toNat) := by
  cases td.tTce.isSome with
  | false => exact iff_of_true (.error nofun) nofun
  | true =>
    refine (bind_iff_left hf).trans (tcePut_inBounds_iff.trans ?_)
    exact ⟨fun hlt hc => hlt hc.2, fun hlt hpg => hlt ⟨rfl, hpg⟩⟩

theorem llanTcePut_inBounds_iff :
    InBounds ChunkTable (llanTcePut h d o liobn ioba ltce) ↔
      ((∃ l, xirGetDevice d.llan liobn = some l ∧ ¬ l.llSize - pgsize < ioba ∧
          l.llTceData.tTce.isSome = true ∧ tcePage ioba < l.llTceData.entries) →
        (h.os o).isSome = true → ltce.pageAddr.toNat < maxLogicalAddress.toNat) := by
  unfold llanTcePut
  rcases xirGetDevice d.llan liobn with _ | l
  · exact iff_of_true (.ok _) nofun
  simp only [Option.some.injEq, exists_eq_left']
  split_ifs with hsize
  · exact iff_of_true (.ok _) fun hc => absurd hsize hc.1
  · rw [deviceTcePut_inBounds_iff fun _ => .ok _]
    simp only [hsize, not_false_eq_true, true_and]

theorem crqTcePut_inBounds_iff :
    InBounds ChunkTable (crqTcePut h d o liobn ioba ltce) ↔
      ((∃ cp, xirGetDevice d.crq liobn = some cp ∧ cp.cpOs = some o ∧
          cp.cpTceData.tTce.isSome = true ∧ tcePage ioba < cp.cpTceData.entries) →
        (h.os o).isSome = true → ltce.pageAddr.toNat < maxLogicalAddress.toNat) := by
  unfold crqTcePut
  rcases xirGetDevice d.crq liobn with _ | cp
  · exact iff_of_true (.ok _) nofun
  simp only [Option.some.injEq, exists_eq_left']
  split_ifs with hown
  · exact iff_of_true (.ok _) fun hc => absurd hc.1 hown
  · rw [deviceTcePut_inBounds_iff fun _ => .ok _]
    simp only [not_not.1 hown, true_and]

theorem setDart_inBounds (index rpg : Uval) : InBounds ChunkTable (d.setDart index rpg) := by
  unfold Devices.setDart
  split_ifs
  · exact .ok _
  · exact .bounds nofun _

theorem ioXlatePut_inBounds_iff {buid : BitVec 32} :
    InBounds ChunkTable (ioXlatePut h d o buid ioba ltce) ↔
      ((∃ hba, hbaGet d.hbaList (buid.setWidth 64) = .ok hba) → (h.os o).isSome = true →
        ltce.pageAddr.toNat < maxLogicalAddress.toNat) := by
  simp only [ioXlatePut, fillDart_one, clearDart_one]
  rcases hget : hbaGet d.hbaList (buid.setWidth 64) with e | hba
  · refine iff_of_true (.error ?_) nofun
    -- the only error is the endless loop
    rintro ⟨_, _, _, rfl⟩
    unfold hbaGet at hget
    split at hget
    · cases hget
    · split_ifs at hget
      cases hget
  rw [ok_bind]
  refine (bind_iff_left fun pa => ?_).trans
    (logicalToPhysicalAddress_inBounds_iff.trans ⟨fun hlt _ => hlt, fun hlt => hlt ⟨hba, rfl⟩⟩)
  split_ifs
  · exact .ok _
  · exact .ok _
  all_goals exact .bind_ok (setDart_inBounds _ _) _

theorem hPutTce_lookup_iff {tceDword : BitVec 64} :
    InBounds ChunkTable (hPutTce h d o liobn ioba tceDword) ↔
      ∀ a, Looks h d o (.putTce liobn ioba tceDword) a → a.toNat < maxLogicalAddress.toNat := by
  -- it is one address, looked up when the put gets there
  have hone : (∀ a, Looks h d o (.putTce liobn ioba tceDword) a →
        a.toNat < maxLogicalAddress.toNat) ↔
      (PutReaches d o liobn ioba → (h.os o).isSome = true →
        (Tce.pageAddr ⟨tceDword⟩).toNat < maxLogicalAddress.toNat) := by
    constructor
    · exact fun hall hr ho => hall _ ⟨ho, hr, rfl⟩
    · rintro hlt a ⟨ho, hr, rfl⟩
      exact hlt hr ho
  rw [hone]
  unfold hPutTce vioTcePut PutReaches
  rcases viosGet (vioType liobn) with _ | c
  · exact iff_of_true (.error nofun) nofun
  cases c with
  | hw => exact ioXlatePut_inBounds_iff
  | llan => exact llanTcePut_inBounds_iff
  | crq => exact crqTcePut_inBounds_iff
  | aipc | vterm => exact iff_of_true (.ok _) nofun

/-! ### `H_PAGE_INIT` -/

theorem hPageInit_lookup_iff {flags destination source : Uval} :
    InBounds ChunkTable (hPageInit h o flags destination source) ↔
      ∀ a, Looks h d o (.pageInit flags destination source) a →
        a.toNat < maxLogicalAddress.toNat := by
  have hsource : ∀ pa, InBounds ChunkTable (logicalToPhysicalAddress h o source pgsize >>=
      fun s => .ok (initPage flags pa s)) ↔
      ((h.os o).isSome = true → source.toNat < maxLogicalAddress.toNat) := fun pa =>
    (bind_iff_left fun s => .ok _).trans logicalToPhysicalAddress_inBounds_iff
  refine bind_iff.trans ⟨?_, ?_⟩
  · rintro ⟨hdst, hsrc⟩ a ⟨ho, rfl | ⟨rfl, pa, hpa⟩⟩
    · exact logicalToPhysicalAddress_inBounds_iff.1 hdst ho
    · exact (hsource pa).1 (hsrc pa hpa) ho
  · intro hall
    refine ⟨logicalToPhysicalAddress_inBounds_iff.2 fun ho => hall _ ⟨ho, .inl rfl⟩, ?_⟩
    exact fun pa hpa => (hsource pa).2 fun ho => hall _ ⟨ho, .inr ⟨rfl, pa, hpa⟩⟩

end

/-- **A call stays inside the chunk table** exactly when every address that it looks up is below
`MAX_LOGICAL_ADDRESS`. -/
theorem xlate_inChunkTable_iff (h : Hype) (d : Devices) (o : OsId) (call : XlateCall) :
    InBounds ChunkTable (xlate h d o call) ↔
      ∀ a, Looks h d o call a → a.toNat < maxLogicalAddress.toNat := by
  cases call with
  | enter flags ptex vsidWord rpnWord =>
    exact (bind_iff_left fun _ => .ok _).trans hEnter_lookup_iff
  | grant type logicalLo length dest =>
    exact (bind_iff_left fun _ => .ok _).trans hGrantLogical_lookup_iff
  | putTce liobn ioba tceDword =>
    exact (bind_iff_left fun _ => .ok _).trans hPutTce_lookup_iff
  | pageInit flags destination source =>
    exact (bind_iff_left fun _ => .ok _).trans hPageInit_lookup_iff

/-- `H_GRANT_LOGICAL` of the address `2^35` reads the slot one past the table. -/
theorem grant_past_chunkTable : ¬ ∀ h d o call, InBounds ChunkTable (xlate h d o call) := by
  intro hall
  have hb := hall (oneChunk 0) ⟨fun _ => none, fun _ => none, [], fun _ => 0, 0⟩ 0
    (.grant .memAddr 0x800000000 0x1000 0)
  exact hb (.bounds .chunk 512) rfl ⟨_, _, rfl, rfl⟩

end Rhype
