import Rhype.Logical.Equiv.InBounds
import Rhype.Tce.Equiv.Xlate
import Rhype.Vio.Basic

/-!
# The tables that `H_PUT_TCE` writes

A put for a virtual device gets to `tce_put` with the table of the device, or it is refused by the
driver.  From there on it is a matter of one entry (`Puts`): which one, the page number cut to an
`int` says.  `putTce_cases` says all that a call can do, and the other results are read off from it.
-/

namespace Rhype

open Devices Function Option TceData

/-! ### Tables and owners -/

/-- The table of entries after an entry is stored. -/
def TceData.store (td : TceData) (n : Nat) (x : Tce) : TceData :=
  { td with tTce := td.tTce.map fun tce => update tce n x }

namespace Devices

/-- The table of a virtual device. -/
def table (d : Devices) : VioClass → Nat → Option TceData
  | .llan, i => (d.llan i).map Llan.llTceData
  | .crq, i => (d.crq i).map CrqPartner.cpTceData
  | _, _ => none

def owner (d : Devices) : VioClass → Nat → Option OsId
  | .llan, i => (d.llan i).bind Llan.llOwner
  | .crq, i => (d.crq i).bind CrqPartner.cpOs
  | _, _ => none

/-- The table that the driver passes to `tce_put`. -/
def driverTable (d : Devices) (o : OsId) (liobn : BitVec 32) (ioba : Uval) : Option TceData :=
  match viosGet (vioType liobn) with
  | some .llan => (xirGetDevice d.llan liobn).bind fun l =>
      if l.llSize - pgsize < ioba then none else some l.llTceData
  | some .crq => (xirGetDevice d.crq liobn).bind fun cp =>
      if cp.cpOs ≠ some o then none else some cp.cpTceData
  | _ => none

def setTable (d : Devices) (liobn : BitVec 32) (td : TceData) : Devices :=
  match viosGet (vioType liobn) with
  | some .llan => { d with
      llan := update d.llan (xirrXisr liobn)
        ((d.llan (xirrXisr liobn)).map fun l => { l with llTceData := td }) }
  | some .crq => { d with
      crq := update d.crq (xirrXisr liobn)
        ((d.crq (xirrXisr liobn)).map fun cp => { cp with cpTceData := td }) }
  | _ => d

end Devices

/-! ### What a put does -/

/-- The put stores the entry `x`, into the table `td` with the entries `tce`: the driver does not
refuse it, the page passes the check of `tce_put`, and the logical page of the entry translates. -/
structure Puts (h : Hype) (d : Devices) (o : OsId) (liobn : BitVec 32) (ioba : Uval) (ltce : Tce)
    (td : TceData) (tce : Nat → Tce) (x : Tce) : Prop where
  driver : d.driverTable o liobn ioba = some td
  set : td.tTce = some tce
  below : tcePage ioba < td.entries
  translates : ∃ pa, logicalToPhysicalAddress h o ltce.pageAddr pgsize = .ok pa ∧
    pa ≠ invalidPhysicalAddress ∧ x = ltce.setRpn ((pa >>> logPgsize).setWidth 40)

/-- The put stores an entry of the DART. -/
def PutsDart (h : Hype) (d : Devices) (o : OsId) (liobn : BitVec 32) (ltce : Tce) : Prop :=
  viosGet (vioType liobn) = some .hw ∧
  (∃ hba, hbaGet d.hbaList (liobn.setWidth 64) = .ok (some hba) ∧ hbaOwner hba o = true) ∧
  ∃ pa, logicalToPhysicalAddress h o ltce.pageAddr pgsize = .ok pa ∧
    pa ≠ invalidPhysicalAddress

section

variable {h : Hype} {d : Devices} {o : OsId} {liobn : BitVec 32} {ioba : Uval} {ltce : Tce}
  {td td' : TceData} {tce tce' : Nat → Tce} {x x' : Tce} {e : Fault}

theorem Puts.unique (hp : Puts h d o liobn ioba ltce td tce x)
    (hp' : Puts h d o liobn ioba ltce td' tce' x') : td = td' ∧ tce = tce' ∧ x = x' := by
  obtain ⟨pa, hpa, -, rfl⟩ := hp.translates
  obtain ⟨pa', hpa', -, rfl⟩ := hp'.translates
  have htd := some.inj (hp.driver.symm.trans hp'.driver)
  subst htd
  refine ⟨rfl, some.inj (hp.set.symm.trans hp'.set), ?_⟩
  rw [hpa] at hpa'
  cases hpa'
  rfl

/-- The tables that a put writes. -/
def IoTable (t : Table) : Prop := t = .tce ∨ t = .dart

theorem logicalToPhysicalAddress_io (h : Hype) (o : OsId) (a len : Uval) :
    InBounds IoTable (logicalToPhysicalAddress h o a len) := by
  apply InBounds.logicalToPhysicalAddress
  all_goals rintro (h | h) <;> cases h

/-- What a call of `H_PUT_TCE` does. -/
inductive PutCase (h : Hype) (d : Devices) (o : OsId) (liobn : BitVec 32) (ioba : Uval)
    (ltce : Tce) (r : Hv (Sval × Devices)) : Prop
  /-- It is refused, or it stops before anything is stored. -/
  | none (hno : ∀ td tce x, ¬ Puts h d o liobn ioba ltce td tce x)
      (hdart : ¬ PutsDart h d o liobn ltce) (hin : InBounds IoTable r)
      (hsame : ∀ ret d', r = .ok (ret, d') → d' = d)
  /-- It stores an entry of the DART. -/
  | dart (hno : ∀ td tce x, ¬ Puts h d o liobn ioba ltce td tce x)
      (hdart : PutsDart h d o liobn ltce) (index rpg : Uval) (hindex : index = ioba >>> logPgsize)
      (hr : r = d.setDart index rpg >>= fun d => .ok (hSuccess, d))
  /-- It stores an entry of the table of a virtual device. -/
  | entry (td : TceData) (tce : Nat → Tce) (x : Tce)
      (hdart : ¬ PutsDart h d o liobn ltce) (hputs : Puts h d o liobn ioba ltce td tce x)
      (hr : r = td.put (tcePage ioba) x >>= fun td => .ok (hSuccess, d.setTable liobn td))

/-- A virtual device: `tce_put` gets the table that the driver passes on. -/
theorem vioTcePut_virtual
    (hclass : viosGet (vioType liobn) = some .llan ∨ viosGet (vioType liobn) = some .crq) :
    vioTcePut h d o liobn ioba ltce =
      match d.driverTable o liobn ioba with
      | none => .ok (hParameter, d)
      | some td => hassert td.tTce.isSome >>= fun _ => tcePut h o td ioba ltce >>= fun p =>
          .ok (p.1, d.setTable liobn p.2) := by
  unfold vioTcePut driverTable setTable
  rcases hclass with hclass | hclass <;> rw [hclass] <;> dsimp only
  · unfold llanTcePut xirGetDevice
    by_cases hid : xirrXisr liobn < 0x100
    · simp only [if_pos hid]
      cases hl : d.llan (xirrXisr liobn) with
      | none => rfl
      | some l =>
        simp only [bind_some]
        split_ifs <;> rfl
    · simp only [if_neg hid]
      rfl
  · unfold crqTcePut xirGetDevice
    by_cases hid : xirrXisr liobn < 0x100
    · simp only [if_pos hid]
      cases hl : d.crq (xirrXisr liobn) with
      | none => rfl
      | some cp =>
        simp only [bind_some]
        split_ifs <;> rfl
    · simp only [if_neg hid]
      rfl

theorem Devices.setTable_self (hdrv : d.driverTable o liobn ioba = some td) :
    d.setTable liobn td = d := by
  unfold driverTable at hdrv
  unfold setTable
  split at hdrv
  · unfold xirGetDevice at hdrv
    obtain ⟨l, hl, hrest⟩ := bind_eq_some_iff.1 hdrv
    split_ifs at hl hrest
    cases hrest
    rw [hl, update_eq_self_iff.2 hl.symm]
  · unfold xirGetDevice at hdrv
    obtain ⟨cp, hcp, hrest⟩ := bind_eq_some_iff.1 hdrv
    split_ifs at hcp hrest
    cases hrest
    rw [hcp, update_eq_self_iff.2 hcp.symm]
  · cases hdrv

theorem PutCase.refused (hno : ∀ td tce x, ¬ Puts h d o liobn ioba ltce td tce x)
    (hdart : ¬ PutsDart h d o liobn ltce) (ret : Sval) :
    PutCase h d o liobn ioba ltce (.ok (ret, d)) := by
  refine .none hno hdart (.ok _) fun ret' d' heq => ?_
  cases heq
  rfl

theorem PutCase.stopped (hno : ∀ td tce x, ¬ Puts h d o liobn ioba ltce td tce x)
    (hdart : ¬ PutsDart h d o liobn ltce) (he : ¬ OutOf IoTable e) :
    PutCase h d o liobn ioba ltce (.error e) :=
  .none hno hdart (.error he) nofun

theorem not_outOf_assertion {T : Table → Prop} : ¬ OutOf T .assertion := by
  rintro ⟨_, _, _, heq⟩
  cases heq

/-- A lookup that fails does not fail in a table that a put writes. -/
theorem not_outOf_of_lookup {a len : Uval}
    (hpa : logicalToPhysicalAddress h o a len = .error e) : ¬ OutOf IoTable e :=
  logicalToPhysicalAddress_io h o a len e hpa

theorem virtual_cases
    (hclass : viosGet (vioType liobn) = some .llan ∨ viosGet (vioType liobn) = some .crq) :
    PutCase h d o liobn ioba ltce (vioTcePut h d o liobn ioba ltce) := by
  have hdart : ¬ PutsDart h d o liobn ltce := by
    rintro ⟨hw, -⟩
    rw [hw] at hclass
    rcases hclass with hclass | hclass <;> cases hclass
  rw [vioTcePut_virtual hclass]
  rcases hdrv : d.driverTable o liobn ioba with _ | td
  · refine .refused (fun td tce x hp => ?_) hdart _
    rw [hp.driver] at hdrv
    cases hdrv
  dsimp only
  rcases hset : td.tTce with _ | tce
  · refine .stopped (fun td' tce x hp => ?_) hdart not_outOf_assertion
    rw [hp.driver] at hdrv
    cases hdrv
    rw [hp.set] at hset
    cases hset
  rw [isSome_some, hassert, if_pos rfl, ok_bind]
  unfold tcePut
  by_cases hbelow : tcePage ioba < td.entries
  swap
  · rw [decide_eq_false hbelow]
    refine .stopped (fun td' tce x hp => ?_) hdart not_outOf_assertion
    rw [hp.driver] at hdrv
    cases hdrv
    exact hbelow hp.below
  rw [decide_eq_true hbelow, hassert, if_pos rfl, ok_bind]
  rcases hpa : logicalToPhysicalAddress h o ltce.pageAddr pgsize with e | pa
  · refine .stopped (fun td' tce x hp => ?_) hdart (not_outOf_of_lookup hpa)
    obtain ⟨pa, hpa', -⟩ := hp.translates
    rw [hpa] at hpa'
    cases hpa'
  rw [ok_bind]
  split_ifs with hinv
  · rw [ok_bind, setTable_self hdrv]
    refine .refused (fun td' tce x hp => ?_) hdart _
    obtain ⟨pa', hpa', hval, -⟩ := hp.translates
    rw [hpa] at hpa'
    cases hpa'
    exact hval hinv
  · refine .entry td tce _ hdart ⟨hdrv, hset, hbelow, pa, hpa, hinv, rfl⟩ ?_
    cases td.put (tcePage ioba) (ltce.setRpn ((pa >>> logPgsize).setWidth 40)) <;> rfl

theorem not_puts (hllan : viosGet (vioType liobn) ≠ some .llan)
    (hcrq : viosGet (vioType liobn) ≠ some .crq) (td : TceData) (tce : Nat → Tce) (x : Tce) :
    ¬ Puts h d o liobn ioba ltce td tce x := by
  intro hp
  have hdrv := hp.driver
  unfold driverTable at hdrv
  split at hdrv
  · exact hllan ‹_›
  · exact hcrq ‹_›
  · cases hdrv

theorem hw_cases (hclass : viosGet (vioType liobn) = some .hw) :
    PutCase h d o liobn ioba ltce (ioXlatePut h d o liobn ioba ltce) := by
  have hno : ∀ td tce x, ¬ Puts h d o liobn ioba ltce td tce x := by
    apply not_puts <;> rw [hclass] <;> nofun
  simp only [ioXlatePut, fillDart_one, clearDart_one]
  rcases hhba : hbaGet d.hbaList (liobn.setWidth 64) with e | ohba
  · refine .stopped hno ?_ ?_
    · rintro ⟨-, ⟨hba, heq, -⟩, -⟩
      rw [hhba] at heq
      cases heq
    · -- the only error is the endless loop
      rintro ⟨t, i, -, rfl⟩
      unfold hbaGet at hhba
      split at hhba
      · cases hhba
      · split_ifs at hhba
        cases hhba
  rw [ok_bind]
  rcases hpa : logicalToPhysicalAddress h o ltce.pageAddr pgsize with e | pa
  · refine .stopped hno ?_ (not_outOf_of_lookup hpa)
    rintro ⟨-, -, pa, hpa', -⟩
    rw [hpa] at hpa'
    cases hpa'
  rw [ok_bind]
  split_ifs with hown hinv hacc
  · refine .refused hno ?_ _
    rintro ⟨-, ⟨hba, heq, howner⟩, -⟩
    rw [hhba] at heq
    cases heq
    simp [howner] at hown
  · refine .refused hno ?_ _
    rintro ⟨-, -, pa', hpa', hval⟩
    rw [hpa] at hpa'
    cases hpa'
    exact hval hinv
  all_goals
    have hputs : PutsDart h d o liobn ltce := by
      refine ⟨hclass, ?_, pa, hpa, hinv⟩
      cases ohba with
      | none => simp at hown
      | some hba => exact ⟨hba, hhba, by simpa using hown⟩
    exact .dart hno hputs _ _ rfl rfl

/-- **What a call of `H_PUT_TCE` does**, for every device number. -/
theorem putTce_cases (h : Hype) (d : Devices) (o : OsId) (liobn : BitVec 32) (ioba : Uval)
    (ltce : Tce) : PutCase h d o liobn ioba ltce (vioTcePut h d o liobn ioba ltce) := by
  -- a class without tables stores nothing
  have hother : viosGet (vioType liobn) ≠ some .llan → viosGet (vioType liobn) ≠ some .crq →
      viosGet (vioType liobn) ≠ some .hw → (∀ td tce x, ¬ Puts h d o liobn ioba ltce td tce x) ∧
        ¬ PutsDart h d o liobn ltce :=
    fun hllan hcrq hhw => ⟨not_puts hllan hcrq, fun hp => hhw hp.1⟩
  rcases hclass : viosGet (vioType liobn) with _ | c
  · rw [hclass] at hother
    obtain ⟨hno, hdart⟩ := hother nofun nofun nofun
    rw [vioTcePut, hclass]
    exact .stopped hno hdart not_outOf_assertion
  rw [hclass] at hother
  cases c with
  | hw =>
    rw [vioTcePut, hclass]
    exact hw_cases hclass
  | llan => exact virtual_cases (.inl hclass)
  | crq => exact virtual_cases (.inr hclass)
  | aipc | vterm =>
    obtain ⟨hno, hdart⟩ := hother nofun nofun nofun
    rw [vioTcePut, hclass]
    exact .refused hno hdart _

/-! ### The page and the table -/

theorem tcePage_eq (hlow : ioba.toNat < 2 ^ 43) : tcePage ioba = (ioba.toNat / 4096 : Nat) := by
  have hpage : (ioba >>> logPgsize).toNat = ioba.toNat / 4096 := by
    rw [BitVec.toNat_ushiftRight, Nat.shiftRight_eq_div_pow]
    rfl
  rw [tcePage, BitVec.toInt_eq_toNat_of_lt, BitVec.toNat_setWidth]
  · omega
  · rw [BitVec.toNat_setWidth]
    omega

theorem tcePage_lt (ioba : Uval) : tcePage ioba < 2 ^ 31 :=
  BitVec.toInt_lt

theorem TceData.entries_le (td : TceData) : td.entries ≤ td.tEntries.toNat := by
  rw [entries, BitVec.toInt_eq_toNat_cond, BitVec.toNat_setWidth]
  split_ifs <;> omega

/-- The store is inside the table, unless the page is negative. -/
theorem Puts.put_eq (hp : Puts h d o liobn ioba ltce td tce x) :
    td.put (tcePage ioba) x = if 0 ≤ tcePage ioba then .ok (td.store (tcePage ioba).toNat x)
      else .error (.bounds .tce (BitVec.ofInt 64 (tcePage ioba)).toNat) := by
  have hbelow := hp.below
  have hle := td.entries_le
  rw [put, hp.set, nonNull, ok_bind]
  by_cases hpos : 0 ≤ tcePage ioba
  · rw [if_pos ⟨hpos, by omega⟩, if_pos hpos, store, hp.set, map_some]
  · rw [if_neg fun hc => hpos hc.1, if_neg hpos]

theorem Puts.device (hp : Puts h d o liobn ioba ltce td tce x) :
    ∃ c, viosGet (vioType liobn) = some c ∧ d.table c (xirrXisr liobn) = some td ∧
      ∀ td', (d.setTable liobn td').table c (xirrXisr liobn) = some td' ∧
        ∀ c' i, (c', i) ≠ (c, xirrXisr liobn) →
          (d.setTable liobn td').table c' i = d.table c' i := by
  have hdrv := hp.driver
  unfold driverTable xirGetDevice at hdrv
  unfold setTable
  rcases hclass : viosGet (vioType liobn) with _ | c
  · rw [hclass] at hdrv
    cases hdrv
  rw [hclass] at hdrv
  cases c with
  | hw | aipc | vterm => cases hdrv
  | llan =>
    obtain ⟨l, hl, hrest⟩ := bind_eq_some_iff.1 hdrv
    split_ifs at hl hrest
    cases hrest
    refine ⟨.llan, rfl, by rw [table, hl]; rfl, fun td' => ⟨?_, fun c' i hne => ?_⟩⟩
    · simp [table, hl]
    · cases c' with
      | llan =>
        have hi : i ≠ xirrXisr liobn := fun hi => hne (by rw [hi])
        simp [table, update_of_ne hi]
      | hw | aipc | crq | vterm => rfl
  | crq =>
    obtain ⟨cp, hcp, hrest⟩ := bind_eq_some_iff.1 hdrv
    split_ifs at hcp hrest
    cases hrest
    refine ⟨.crq, rfl, by rw [table, hcp]; rfl, fun td' => ⟨?_, fun c' i hne => ?_⟩⟩
    · simp [table, hcp]
    · cases c' with
      | crq =>
        have hi : i ≠ xirrXisr liobn := fun hi => hne (by rw [hi])
        simp [table, update_of_ne hi]
      | hw | aipc | llan | vterm => rfl

theorem TceData.store_eq_self_iff (hset : td.tTce = some tce) {n : Nat} :
    td.store n x = td ↔ tce n = x := by
  have hiff : td.store n x = td ↔ some (update tce n x) = some tce := by
    rw [store, hset, map_some, ← hset]
    constructor
    · intro heq
      exact congrArg tTce heq
    · intro heq
      rw [heq]
  rw [hiff, some.injEq, update_eq_self_iff, eq_comm]

/-! ### One entry -/

/-- The tables stay as they are, or the entry of the I/O page is stored in the table of the device
and is inside it. -/
def PutsAtMostOne (d d' : Devices) (liobn : BitVec 32) (ioba : Uval) : Prop :=
  ∀ c i, d'.table c i = d.table c i ∨
    viosGet (vioType liobn) = some c ∧ i = xirrXisr liobn ∧ ∃ td x, d.table c i = some td ∧
      ioba.toNat / 4096 < td.tEntries.toNat ∧
      d'.table c i = some (td.store (ioba.toNat / 4096) x)

theorem setDart_table {index rpg : Uval} {d' : Devices} (hx : d.setDart index rpg = .ok d')
    (c : VioClass) (i : Nat) : d'.table c i = d.table c i := by
  unfold setDart at hx
  split_ifs at hx
  cases hx
  cases c <;> rfl

/-- An entry that is stored at the cut page is that of the I/O page, or it was there before. -/
theorem Puts.atMostOne_iff (hp : Puts h d o liobn ioba ltce td tce x) (hpos : 0 ≤ tcePage ioba) :
    PutsAtMostOne d (d.setTable liobn (td.store (tcePage ioba).toNat x)) liobn ioba ↔
      ioba.toNat < 2 ^ 43 ∨ tce (tcePage ioba).toNat = x := by
  obtain ⟨c, hclass, htable, hset⟩ := hp.device
  have hint := tcePage_lt ioba
  constructor
  · intro hone
    by_contra hcon
    rw [not_or] at hcon
    obtain ⟨hhigh, hne⟩ := hcon
    rcases hone c (xirrXisr liobn) with hsame | ⟨-, -, td', x', htable', -, hstore⟩
    · rw [(hset _).1, htable, some.injEq, store_eq_self_iff hp.set] at hsame
      exact hne hsame
    -- the two stores are at different entries
    rw [htable] at htable'
    cases htable'
    rw [(hset _).1, some.injEq, store, store, hp.set] at hstore
    have hupdate : update tce (tcePage ioba).toNat x
        = update tce (ioba.toNat / 4096) x' :=
      some.inj (congrArg tTce hstore)
    have hat := congrFun hupdate (tcePage ioba).toNat
    have hidx : (tcePage ioba).toNat ≠ ioba.toNat / 4096 := by omega
    rw [update_self, update_of_ne hidx] at hat
    exact hne hat.symm
  · rintro (hlow | hsame) c' i
    · by_cases hdev : (c', i) = (c, xirrXisr liobn)
      · cases hdev
        have hpage := tcePage_eq hlow
        have hbelow := hp.below
        have hle := td.entries_le
        refine .inr ⟨hclass, rfl, td, x, htable, by omega, ?_⟩
        rw [(hset _).1, hpage, Int.toNat_natCast]
      · exact .inl ((hset _).2 c' i hdev)
    · rw [(store_eq_self_iff hp.set).2 hsame, setTable_self hp.driver]
      exact .inl rfl

/-- **A put stores at most the entry of its I/O page**, and that inside the table, exactly when an
address whose entry is stored is below `2^43`, or the entry that it hits instead has the value
already. -/
theorem putTce_one_entry_iff (h : Hype) (d : Devices) (o : OsId) (liobn : BitVec 32) (ioba : Uval)
    (tceDword : BitVec 64) :
    (InBounds (· = .tce) (hPutTce h d o liobn ioba tceDword) ∧
      ∀ ret d', hPutTce h d o liobn ioba tceDword = .ok (ret, d') →
        PutsAtMostOne d d' liobn ioba) ↔
    ∀ td tce x, Puts h d o liobn ioba ⟨tceDword⟩ td tce x →
      ioba.toNat < 2 ^ 43 ∨ 0 ≤ tcePage ioba ∧ tce (tcePage ioba).toNat = x := by
  have hmono : ∀ {e : Fault}, OutOf (· = .tce) e → OutOf IoTable e := by
    rintro e ⟨t, i, rfl, rfl⟩
    exact ⟨.tce, i, .inl rfl, rfl⟩
  unfold hPutTce
  rcases putTce_cases h d o liobn ioba ⟨tceDword⟩ with
    ⟨hno, -, hin, hsame⟩ | ⟨hno, -, index, rpg, -, hr⟩ | ⟨td, tce, x, -, hp, hr⟩
  · refine iff_of_true ⟨fun e he hout => hin e he (hmono hout), fun ret d' hx c i => ?_⟩
      fun td tce x hp => absurd hp (hno td tce x)
    rw [hsame ret d' hx]
    exact .inl rfl
  · refine iff_of_true ⟨?_, fun ret d' hx c i => ?_⟩ fun td tce x hp => absurd hp (hno td tce x)
    · rw [hr]
      refine .bind ?_ fun _ _ => .ok _
      unfold setDart
      split_ifs
      · exact .ok _
      · exact InBounds.bounds nofun _
    · rw [hr] at hx
      obtain ⟨d1, hd1, heq⟩ := of_seq hx
      cases heq
      exact .inl (setDart_table hd1 c i)
  · rw [hr, hp.put_eq]
    have hone : (∀ td' tce' x', Puts h d o liobn ioba ⟨tceDword⟩ td' tce' x' →
        ioba.toNat < 2 ^ 43 ∨ 0 ≤ tcePage ioba ∧ tce' (tcePage ioba).toNat = x') ↔
        (ioba.toNat < 2 ^ 43 ∨ 0 ≤ tcePage ioba ∧ tce (tcePage ioba).toNat = x) := by
      refine ⟨fun hall => hall td tce x hp, fun hx td' tce' x' hp' => ?_⟩
      obtain ⟨rfl, rfl, rfl⟩ := hp.unique hp'
      exact hx
    rw [hone]
    split_ifs with hpos
    · rw [and_iff_right hpos, ← hp.atMostOne_iff hpos]
      constructor
      · exact fun hall => hall.2 _ _ rfl
      · refine fun hat => ⟨.ok _, fun ret d' heq => ?_⟩
        cases heq
        exact hat
    -- the store is in front of the table
    rw [error_bind]
    refine iff_of_false (fun hall => hall.1 _ rfl ⟨_, _, rfl, rfl⟩) ?_
    rintro (hlow | ⟨hpos', -⟩)
    · have hpage := tcePage_eq hlow
      omega
    · exact hpos hpos'

/-- A CRQ of partition 0, with a table of one entry. -/
def oneCrq : Devices where
  llan := fun _ => none
  crq := fun i => if i = 0 then some ⟨some 0, ⟨1, some fun _ => ⟨0⟩⟩⟩ else none
  hbaList := []
  dartTable := fun _ => 0
  dummyPage := 0

/-- The I/O address `2^43` is page `-2^31` of the table. -/
theorem putTce_in_front :
    ¬ ∀ h d o liobn ioba tceDword, InBounds (· = .tce) (hPutTce h d o liobn ioba tceDword) ∧
      ∀ ret d', hPutTce h d o liobn ioba tceDword = .ok (ret, d') →
        PutsAtMostOne d d' liobn ioba := by
  intro hall
  have hin := (hall (oneChunk 0) oneCrq 0 0x300000 0x80000000000 3).1
  exact hin (.bounds .tce 0xffffffff80000000) rfl ⟨_, _, rfl, rfl⟩

/-! ### The tables of another partition -/

/-- The tables of the devices of partition `B` are the same. -/
def Devices.SameTables (d d' : Devices) (B : OsId) : Prop :=
  ∀ c i, d.owner c i = some B → d'.table c i = d.table c i

/-- A stored entry leaves the tables of a partition alone when the device is not one of its own, or
the entry was there before. -/
theorem Puts.sameTables_iff (hp : Puts h d o liobn ioba ltce td tce x) (n : Nat) (B : OsId) :
    d.SameTables (d.setTable liobn (td.store n x)) B ↔
      ∀ c, viosGet (vioType liobn) = some c → d.owner c (xirrXisr liobn) = some B →
        tce n = x := by
  obtain ⟨c, hclass, htable, hset⟩ := hp.device
  constructor
  · intro hsame c' hclass' howner
    rw [hclass] at hclass'
    cases hclass'
    have heq := hsame c (xirrXisr liobn) howner
    rwa [(hset _).1, htable, some.injEq, store_eq_self_iff hp.set] at heq
  · intro hvalue c' i howner
    by_cases hdev : (c', i) = (c, xirrXisr liobn)
    · cases hdev
      have hx := hvalue c hclass howner
      rw [(store_eq_self_iff hp.set).2 hx, setTable_self hp.driver]
    · exact (hset _).2 c' i hdev

theorem setDart_inBounds_iff {index rpg : Uval} :
    InBounds IoTable (d.setDart index rpg) ↔ index.toNat < 2 ^ 19 := by
  unfold setDart
  split_ifs with hindex
  · exact iff_of_true (.ok _) hindex
  · exact iff_of_false (fun hin => hin _ rfl ⟨_, _, .inr rfl, rfl⟩) hindex

/-- **A put of partition `A` leaves the tables of `B` alone** exactly when no entry in front of a
table or behind the DART is stored, and an entry that is stored is not one of a device of `B` (which
only a logical LAN can be), unless it has the value already. -/
theorem putTce_leaves_iff (h : Hype) (d : Devices) (A B : OsId) (liobn : BitVec 32) (ioba : Uval)
    (tceDword : BitVec 64) :
    (InBounds IoTable (hPutTce h d A liobn ioba tceDword) ∧
      ∀ ret d', hPutTce h d A liobn ioba tceDword = .ok (ret, d') → d.SameTables d' B) ↔
    (∀ td tce x, Puts h d A liobn ioba ⟨tceDword⟩ td tce x → 0 ≤ tcePage ioba ∧
      ∀ c, viosGet (vioType liobn) = some c → d.owner c (xirrXisr liobn) = some B →
        tce (tcePage ioba).toNat = x) ∧
    (PutsDart h d A liobn ⟨tceDword⟩ → (ioba >>> logPgsize).toNat < 2 ^ 19) := by
  unfold hPutTce
  rcases putTce_cases h d A liobn ioba ⟨tceDword⟩ with
    ⟨hno, hdart, hin, hsame⟩ | ⟨hno, hdart, index, rpg, rfl, hr⟩ | ⟨td, tce, x, hdart, hp, hr⟩
  · refine iff_of_true ⟨hin, fun ret d' hx c i _ => ?_⟩
      ⟨fun td tce x hp => absurd hp (hno td tce x), fun hp => absurd hp hdart⟩
    rw [hsame ret d' hx]
  · rw [hr]
    constructor
    · intro hall
      refine ⟨fun td tce x hp => absurd hp (hno td tce x), fun _ => ?_⟩
      exact setDart_inBounds_iff.1 (Avoids.bind_iff.1 hall.1).1
    · intro hcond
      refine ⟨.bind_ok (setDart_inBounds_iff.2 (hcond.2 hdart)) _, ?_⟩
      intro ret d' hx c i _
      obtain ⟨d1, hd1, heq⟩ := of_seq hx
      cases heq
      exact setDart_table hd1 c i
  · rw [hr, hp.put_eq]
    constructor
    · rintro ⟨hin, hsame⟩
      by_cases hpos : 0 ≤ tcePage ioba
      · rw [if_pos hpos] at hsame
        refine ⟨fun td' tce' x' hp' => ?_, fun hp' => absurd hp' hdart⟩
        obtain ⟨rfl, rfl, rfl⟩ := hp.unique hp'
        exact ⟨hpos, (hp.sameTables_iff _ B).1 (hsame _ _ rfl)⟩
      · rw [if_neg hpos] at hin
        exact absurd ⟨_, _, .inl rfl, rfl⟩ (hin _ rfl)
    · rintro ⟨hcond, -⟩
      obtain ⟨hpos, hvalue⟩ := hcond td tce x hp
      rw [if_pos hpos]
      refine ⟨.ok _, fun ret d' heq => ?_⟩
      cases heq
      exact (hp.sameTables_iff _ B).2 hvalue

/-- A logical LAN of partition 1, with a table of one entry. -/
def oneLlan : Devices where
  llan := fun i => if i = 0 then some ⟨0x10000000, ⟨1, some fun _ => ⟨0⟩⟩, some 1⟩ else none
  crq := fun _ => none
  hbaList := []
  dartTable := fun _ => 0
  dummyPage := 0

/-- Partition 0 maps a page of its own into the table of the logical LAN of partition 1. -/
theorem putTce_foreign_llan :
    ¬ ∀ h d (A B : OsId) liobn ioba tceDword, A ≠ B →
      InBounds IoTable (hPutTce h d A liobn ioba tceDword) ∧
      ∀ ret d', hPutTce h d A liobn ioba tceDword = .ok (ret, d') → d.SameTables d' B := by
  intro hall
  have hsame := (hall (oneChunk 0) oneLlan 0 1 0x100000 0 3 (by decide)).2 hSuccess _ rfl .llan 0
    rfl
  have hentry := congrArg (Option.map fun td => td.entry 0) hsame
  exact absurd hentry (by decide +kernel)

end

end Rhype
