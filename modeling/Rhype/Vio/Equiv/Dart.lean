import Rhype.Logical.Equiv.InBounds
import Rhype.Vio.Dart
import Rhype.Word.Align

/-!
# What the DART maps

After `io_xlate_init` every entry should name the dummy page, and after each `io_xlate_put` the
entry at its index the page that was mapped there.

* `clear_dart` stores the address of the dummy page in place of its page number; the two agree for
  the page at 0 only.
* The index is not compared with the size of the table, and a page number is cut to 24 bits.
-/

namespace Rhype

open BitVec DartCall DartWorld Function Nat

/-! ### The words of the table -/

/-- The entry is valid, and its page number is that of the real address. -/
def DartNames (e : BitVec 32) (raddr : Uval) : Prop :=
  e.getLsbD 31 = true ∧ (e &&& 0x00ffffff).toNat = raddr.toNat / 4096

/-- The word that `clear_dart` stores names the dummy page. -/
def DummyNamed (dummyPage : Uval) : Prop := dummyPage.toNat % 2 ^ 24 = dummyPage.toNat / 4096

theorem toNat_and_dartMask (rpg : Uval) : (rpg &&& 0x00ffffff).toNat = rpg.toNat % 2 ^ 24 :=
  Word.toNat_and_two_pow_sub_one rpg _ rfl

theorem dartNames_dartWord {rpg raddr : Uval} :
    DartNames (dartWord rpg) raddr ↔ rpg.toNat % 2 ^ 24 = raddr.toNat / 4096 := by
  have hlow : (dartWord rpg &&& 0x00ffffff).toNat = rpg.toNat % 2 ^ 24 := by
    have hsmall : rpg.toNat % 2 ^ 24 % 2 ^ 32 = rpg.toNat % 2 ^ 24 := by omega
    rw [Word.toNat_and_two_pow_sub_one (k := 24) _ _ rfl, dartWord, toNat_or,
      toNat_setWidth, toNat_and_dartMask, hsmall, or_mod_two_pow, mod_mod]
    exact zero_or _
  have hvalid : (dartWord rpg).getLsbD 31 = true := by
    rw [dartWord, BitVec.getLsbD_or]
    exact Bool.or_eq_true_iff.2 (.inl (by decide))
  rw [DartNames, hlow]
  exact and_iff_right hvalid

/-! ### Stores -/

def DartTable (t : Table) : Prop := t = .dart

section

variable {d d' : Devices} {index rpg inc : Uval}

/-- The devices after a word of the table is stored. -/
def Devices.withDart (d : Devices) (i : Nat) (e : BitVec 32) : Devices :=
  { d with dartTable := update d.dartTable i e }

theorem Devices.setDart_of_lt (hlt : index.toNat < 2 ^ 19) :
    d.setDart index rpg = .ok (d.withDart index.toNat (dartWord rpg)) := if_pos hlt

theorem Devices.setDart_of_le (hle : 2 ^ 19 ≤ index.toNat) :
    d.setDart index rpg = .error (.bounds .dart index.toNat) := if_neg (not_lt.2 hle)

/-- A loop over one page fills a part of the table that does not reach past its end. -/
theorem dartLoop_zero (rpg : Uval) {d : Devices} : ∀ (n : Nat) (index : Uval),
    index.toNat + n ≤ 2 ^ 19 →
    ∃ d', dartLoop 0 n index rpg d = .ok d' ∧ d'.dummyPage = d.dummyPage ∧
      ∀ i, d'.dartTable i =
        if index.toNat ≤ i ∧ i < index.toNat + n then dartWord rpg else d.dartTable i
  | 0, index, _ => by
    refine ⟨d, rfl, rfl, fun i => ?_⟩
    rw [if_neg (by omega)]
  | n + 1, index, hle => by
    have hsucc : (index + 1).toNat = index.toNat + 1 := by
      exact mod_eq_of_lt (show index.toNat + 1 < 2 ^ 64 by omega)
    obtain ⟨d', hd', hdummy, htable⟩ :=
      dartLoop_zero rpg (d := d.withDart index.toNat (dartWord rpg)) n (index + 1) (by omega)
    refine ⟨d', ?_, hdummy, fun i => ?_⟩
    · rw [dartLoop, Devices.setDart_of_lt (by omega), ok_bind, add_zero, hd']
    · rw [htable, hsucc]
      by_cases hi : i = index.toNat
      · subst hi
        rw [if_neg (by omega), if_pos (by omega)]
        exact update_self ..
      have hold : (d.withDart index.toNat (dartWord rpg)).dartTable i = d.dartTable i :=
        update_of_ne hi ..
      rw [hold]
      by_cases hin : index.toNat + 1 ≤ i ∧ i < index.toNat + 1 + n
      · rw [if_pos hin, if_pos (by omega)]
      · rw [if_neg hin, if_neg (by omega)]

/-- `io_xlate_init` stays inside the table and sets all its entries to the same word. -/
theorem ioXlateInit_ok (d : Devices) :
    ∃ d', ioXlateInit d = .ok d' ∧ d'.dummyPage = d.dummyPage ∧
      ∀ i < 2 ^ 19, d'.dartTable i = dartWord d.dummyPage := by
  obtain ⟨d', hd', hdummy, htable⟩ :=
    dartLoop_zero d.dummyPage (d := d) (2 ^ 19) 0 (le_of_eq (zero_add _))
  refine ⟨d', hd', hdummy, fun i hi => ?_⟩
  rw [htable, if_pos ⟨zero_le _, by simpa using hi⟩]

end

/-! ### One call -/

/-- The call gets to store an entry: its partition may use the bridge, and the logical page of the
entry translates to `pa`. -/
structure DartStores (d : Devices) (c : DartCall) (pa : Uval) : Prop where
  owner : ∃ hba, hbaGet d.hbaList (c.buid.setWidth 64) = .ok (some hba) ∧ hbaOwner hba c.o = true
  translates : logicalToPhysicalAddress c.h c.o c.ltce.pageAddr pgsize = .ok pa
  valid : pa ≠ invalidPhysicalAddress

/-- The page number that a call stores. -/
def DartCall.page (c : DartCall) (d : Devices) (pa : Uval) : Uval :=
  if c.maps then pa >>> logPgsize else d.dummyPage

/-- The world after a call that stores its entry. -/
def DartWorld.stored (w : DartWorld) (c : DartCall) (pa : Uval) : DartWorld where
  dev := w.dev.withDart c.index.toNat (dartWord (c.page w.dev pa))
  lastMap := if c.maps then update w.lastMap c.index.toNat (some pa) else w.lastMap

section

variable {w w' : DartWorld} {c : DartCall} {pa : Uval}

theorem DartStores.unique {pa' : Uval} (hs : DartStores w.dev c pa)
    (hs' : DartStores w.dev c pa') : pa = pa' := by
  have heq := hs.translates.symm.trans hs'.translates
  cases heq
  rfl

theorem lookup_inDart (h : Hype) (o : OsId) (a len : Uval) :
    InBounds DartTable (logicalToPhysicalAddress h o a len) := by
  apply InBounds.logicalToPhysicalAddress
  all_goals rintro ⟨⟩

theorem hbaGet_inDart (l : List Hba) (buid : Uval) : InBounds DartTable (hbaGet l buid) := by
  rcases l with _ | ⟨hba, l⟩
  · exact .ok _
  rw [hbaGet]
  split_ifs
  · exact .ok _
  · refine .error ?_
    rintro ⟨_, _, _, heq⟩
    cases heq

/-- What `io_xlate_put` does: it stores its entry, is refused, or stops without a store. -/
theorem ioXlatePut_cases (d : Devices) (c : DartCall) :
    (∃ pa, DartStores d c pa ∧ ioXlatePut c.h d c.o c.buid c.ioba c.ltce =
      d.setDart c.index (c.page d pa) >>= fun d => .ok (hSuccess, d)) ∨
    (∀ pa, ¬ DartStores d c pa) ∧
      (ioXlatePut c.h d c.o c.buid c.ioba c.ltce = .ok (hParameter, d) ∨
        ∃ e, ioXlatePut c.h d c.o c.buid c.ioba c.ltce = .error e ∧ ¬ OutOf DartTable e) := by
  simp only [ioXlatePut, fillDart_one, clearDart_one]
  rcases hhba : hbaGet d.hbaList (c.buid.setWidth 64) with e | ohba
  · refine .inr ⟨fun pa hs => ?_, .inr ⟨e, rfl, hbaGet_inDart _ _ e hhba⟩⟩
    obtain ⟨hba, hget, -⟩ := hs.owner
    rw [hhba] at hget
    cases hget
  rw [ok_bind]
  rcases hpa : logicalToPhysicalAddress c.h c.o c.ltce.pageAddr pgsize with e | pa
  · refine .inr ⟨fun pa hs => ?_, .inr ⟨e, rfl, lookup_inDart _ _ _ _ e hpa⟩⟩
    have htr := hs.translates
    rw [hpa] at htr
    cases htr
  rw [ok_bind]
  by_cases hown : ohba.any (hbaOwner · c.o) = true
  swap
  · refine .inr ⟨fun pa' hs => ?_, .inl (if_pos (by simpa using hown))⟩
    obtain ⟨hba, hget, howner⟩ := hs.owner
    rw [hhba] at hget
    cases hget
    exact hown howner
  rw [if_neg (by simpa using hown)]
  by_cases hinv : pa = invalidPhysicalAddress
  · refine .inr ⟨fun pa' hs => ?_, .inl (if_pos hinv)⟩
    have htr := hs.translates
    rw [hpa] at htr
    cases htr
    exact hs.valid hinv
  cases ohba with
  | none => cases hown
  | some hba =>
    refine .inl ⟨pa, ⟨⟨hba, hhba, hown⟩, hpa, hinv⟩, ?_⟩
    unfold page maps index
    split_ifs <;> rfl

theorem dartStep_of_stores (hs : DartStores w.dev c pa) (hlt : c.index.toNat < 2 ^ 19) :
    dartStep w c = .ok (w.stored c pa) := by
  rcases ioXlatePut_cases w.dev c with ⟨pa', hs', hput⟩ | ⟨hno, -⟩
  · cases hs.unique hs'
    rw [dartStep, hput, Devices.setDart_of_lt hlt, hs.translates, stored]
    simp
  · exact absurd hs (hno pa)

theorem dartStep_outside (hs : DartStores w.dev c pa) (hle : 2 ^ 19 ≤ c.index.toNat) :
    dartStep w c = .error (.bounds .dart c.index.toNat) := by
  rcases ioXlatePut_cases w.dev c with ⟨pa', hs', hput⟩ | ⟨hno, -⟩
  · cases hs.unique hs'
    rw [dartStep, hput, Devices.setDart_of_le hle, error_bind, error_bind]
  · exact absurd hs (hno pa)

theorem dartStep_of_not_stores (hno : ∀ pa, ¬ DartStores w.dev c pa) :
    InBounds DartTable (dartStep w c) ∧ ∀ w', dartStep w c = .ok w' → w' = w := by
  rcases ioXlatePut_cases w.dev c with ⟨pa, hs, -⟩ | ⟨-, hput | ⟨e, hput, he⟩⟩
  · exact absurd hs (hno pa)
  · rw [dartStep, hput, ok_bind]
    refine ⟨.bind_ok (lookup_inDart _ _ _ _) _, fun w' hx => ?_⟩
    obtain ⟨pa, -, hx⟩ := of_seq hx
    cases hx
    rw [if_neg nofun]
  · rw [dartStep, hput]
    exact ⟨.error he, nofun⟩

/-! ### Sequences of calls -/

/-- An entry names the page of the last mapping at its index, or the dummy page. -/
def DartWorld.EntryOk (w : DartWorld) (i : Nat) : Prop :=
  DartNames (w.dev.dartTable i) w.dev.dummyPage ∨
    ∃ pa, w.lastMap i = some pa ∧ DartNames (w.dev.dartTable i) pa

/-- All entries do. -/
def DartWorld.TableOk (w : DartWorld) : Prop := ∀ i < 2 ^ 19, w.EntryOk i

/-- The calls store no word outside the table, and the table is right in every state that they
reach. -/
def DartHolds (w : DartWorld) : List DartCall → Prop
  | [] => w.TableOk
  | c :: cs => w.TableOk ∧ InBounds DartTable (dartStep w c) ∧
      ∀ w', dartStep w c = .ok w' → DartHolds w' cs

/-- If the call gets to store, then its index is in the table, and a page number that it stores fits
24 bits (or is cut to that of the dummy page). -/
def DartFits (w : DartWorld) (c : DartCall) : Prop :=
  ∀ pa, DartStores w.dev c pa → c.index.toNat < 2 ^ 19 ∧
    (c.maps = true → pa.toNat / 4096 < 2 ^ 24 ∨
      pa.toNat / 4096 % 2 ^ 24 = w.dev.dummyPage.toNat / 4096)

/-- Each call meets `DartFits` in the state in which it is made. -/
def DartCareful (w : DartWorld) : List DartCall → Prop
  | [] => True
  | c :: cs => DartFits w c ∧ ∀ w', dartStep w c = .ok w' → DartCareful w' cs

theorem DartWorld.entryOk_stored_of_ne {i : Nat} (hi : i ≠ c.index.toNat) :
    (w.stored c pa).EntryOk i ↔ w.EntryOk i := by
  have htable : (w.stored c pa).dev.dartTable i = w.dev.dartTable i := update_of_ne hi ..
  have hlast : (w.stored c pa).lastMap i = w.lastMap i := by
    unfold stored
    split_ifs
    · exact update_of_ne hi ..
    · rfl
  rw [EntryOk, htable, hlast]
  rfl

theorem DartWorld.entryOk_stored (hdummy : DummyNamed w.dev.dummyPage) :
    (w.stored c pa).EntryOk c.index.toNat ↔
      (c.maps = true → pa.toNat / 4096 < 2 ^ 24 ∨
        pa.toNat / 4096 % 2 ^ 24 = w.dev.dummyPage.toNat / 4096) := by
  have htable : (w.stored c pa).dev.dartTable c.index.toNat = dartWord (c.page w.dev pa) :=
    update_self ..
  have hpage : (pa >>> logPgsize).toNat = pa.toNat / 4096 := by
    rw [toNat_ushiftRight, shiftRight_eq_div_pow]
    rfl
  rw [EntryOk, htable, dartNames_dartWord]
  by_cases hmaps : c.maps = true
  · have hlast : (w.stored c pa).lastMap c.index.toNat = some pa := by
      rw [stored, if_pos hmaps]
      exact update_self ..
    rw [hlast, page, if_pos hmaps, hpage]
    constructor
    · rintro (hd | ⟨pa', heq, hn⟩) _
      · exact .inr hd
      · cases heq
        rw [dartNames_dartWord] at hn
        omega
    · intro hfits
      rcases hfits hmaps with hlt | hd
      · exact .inr ⟨pa, rfl, dartNames_dartWord.2 (by rw [hpage]; omega)⟩
      · exact .inl hd
  · rw [page, if_neg hmaps]
    exact ⟨fun _ h => absurd h hmaps, fun _ => .inl hdummy⟩

/-- **One call** stays inside the table and leaves it right exactly when it meets `DartFits`. -/
theorem dartFits_iff (hdummy : DummyNamed w.dev.dummyPage) (hok : w.TableOk) :
    DartFits w c ↔ InBounds DartTable (dartStep w c) ∧
      ∀ w', dartStep w c = .ok w' → w'.TableOk := by
  by_cases hstores : ∃ pa, DartStores w.dev c pa
  swap
  · have hno : ∀ pa, ¬ DartStores w.dev c pa := fun pa hs => hstores ⟨pa, hs⟩
    obtain ⟨hin, hsame⟩ := dartStep_of_not_stores hno
    exact ⟨fun _ => ⟨hin, fun w' hx => hsame w' hx ▸ hok⟩, fun _ pa hs => absurd hs (hno pa)⟩
  obtain ⟨pa, hs⟩ := hstores
  by_cases hlt : c.index.toNat < 2 ^ 19
  · rw [dartStep_of_stores hs hlt]
    constructor
    · intro hfits
      refine ⟨.ok _, fun w' hx i hi => ?_⟩
      cases hx
      by_cases hne : i = c.index.toNat
      · rw [hne]
        exact (entryOk_stored hdummy).2 (hfits pa hs).2
      · exact (entryOk_stored_of_ne hne).2 (hok i hi)
    · rintro ⟨-, hkeep⟩ pa' hs'
      cases hs.unique hs'
      exact ⟨hlt, (entryOk_stored hdummy).1 (hkeep _ rfl _ hlt)⟩
  · rw [dartStep_outside hs (not_lt.1 hlt)]
    exact ⟨fun hfits => absurd (hfits pa hs).1 hlt,
      fun h => absurd ⟨.dart, _, rfl, rfl⟩ (h.1 _ rfl)⟩

theorem dartStep_dummyPage (hx : dartStep w c = .ok w') : w'.dev.dummyPage = w.dev.dummyPage := by
  by_cases hstores : ∃ pa, DartStores w.dev c pa
  · obtain ⟨pa, hs⟩ := hstores
    by_cases hlt : c.index.toNat < 2 ^ 19
    · rw [dartStep_of_stores hs hlt] at hx
      cases hx
      rfl
    · rw [dartStep_outside hs (not_lt.1 hlt)] at hx
      cases hx
  · rw [(dartStep_of_not_stores fun pa hs => hstores ⟨pa, hs⟩).2 w' hx]

theorem dartHolds_iff : ∀ (calls : List DartCall) {w : DartWorld},
    DummyNamed w.dev.dummyPage → w.TableOk → (DartHolds w calls ↔ DartCareful w calls)
  | [], _, _, hok => ⟨fun _ => trivial, fun _ => hok⟩
  | c :: cs, w, hdummy, hok => by
    have hrest : ∀ w', dartStep w c = .ok w' → w'.TableOk →
        (DartHolds w' cs ↔ DartCareful w' cs) := fun w' hx hok' =>
      dartHolds_iff cs (by rw [dartStep_dummyPage hx]; exact hdummy) hok'
    have htable : ∀ w', DartHolds w' cs → w'.TableOk := by
      intro w' hw'
      cases cs with
      | nil => exact hw'
      | cons _ _ => exact hw'.1
    constructor
    · rintro ⟨-, hin, hnext⟩
      have hkeep : ∀ w', dartStep w c = .ok w' → w'.TableOk :=
        fun w' hx => htable w' (hnext w' hx)
      exact ⟨(dartFits_iff hdummy hok).2 ⟨hin, hkeep⟩,
        fun w' hx => (hrest w' hx (hkeep w' hx)).1 (hnext w' hx)⟩
    · rintro ⟨hfits, hnext⟩
      obtain ⟨hin, hkeep⟩ := (dartFits_iff hdummy hok).1 hfits
      exact ⟨hok, hin, fun w' hx => (hrest w' hx (hkeep w' hx)).2 (hnext w' hx)⟩

end

/-- **The DART is right after `io_xlate_init` and after any calls** exactly when the word for the
dummy page names it, and each call that stores has an index in the table and a page number of 24
bits. -/
theorem dart_holds_iff (d : Devices) (calls : List DartCall) :
    ∃ d', ioXlateInit d = .ok d' ∧
      (DartHolds ⟨d', fun _ => none⟩ calls ↔
        DummyNamed d.dummyPage ∧ DartCareful ⟨d', fun _ => none⟩ calls) := by
  obtain ⟨d', hinit, hdummy, htable⟩ := ioXlateInit_ok d
  refine ⟨d', hinit, ?_⟩
  have hok : (⟨d', fun _ => none⟩ : DartWorld).TableOk ↔ DummyNamed d.dummyPage := by
    constructor
    · intro hok
      rcases hok 0 (by decide) with hnames | ⟨pa, heq, -⟩
      · rw [htable 0 (by decide), dartNames_dartWord] at hnames
        rw [← hdummy]
        rwa [← hdummy] at hnames
      · cases heq
    · intro hnamed i hi
      refine .inl ?_
      rwa [htable i hi, dartNames_dartWord, hdummy]
  constructor
  · intro hholds
    have htok : (⟨d', fun _ => none⟩ : DartWorld).TableOk := by
      cases calls with
      | nil => exact hholds
      | cons _ _ => exact hholds.1
    have hnamed := hok.1 htok
    exact ⟨hnamed, (dartHolds_iff calls (by rw [hdummy]; exact hnamed) htok).1 hholds⟩
  · rintro ⟨hnamed, hcareful⟩
    exact (dartHolds_iff calls (by rw [hdummy]; exact hnamed) (hok.2 hnamed)).2 hcareful

/-- Right after `io_xlate_init` the entries name another page than the dummy page at `0x7000`. -/
theorem dart_names_other :
    ¬ ∀ d d' calls, ioXlateInit d = .ok d' → DartHolds ⟨d', fun _ => none⟩ calls := by
  intro hall
  obtain ⟨d', hinit, hdummy, htable⟩ :=
    ioXlateInit_ok ⟨fun _ => none, fun _ => none, [], fun _ => 0, 0x7000⟩
  have hholds : DartHolds ⟨d', fun _ => none⟩ [] := hall _ d' [] hinit
  rcases hholds 0 (by decide) with hnames | ⟨pa, heq, -⟩
  · rw [htable 0 (by decide), dartNames_dartWord, hdummy] at hnames
    cases hnames
  · cases heq

end Rhype
