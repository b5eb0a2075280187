import Rhype.Logical.Equiv.Translate
import Rhype.Tce.Xlate
import Rhype.Word.Pages

/-!
# What `tce_bd_xlate` accepts and returns

The answer of the loop is about the entries of the pages that the buffer touches: it goes on past an
entry exactly when the entry is not read-only.  So an entry without access is accepted, and one that
can only be read is not.  `tceBdXlate_eq_ok_iff` says when an address is returned, and which one.
-/

namespace Rhype

open BitVec hiding not_or
open TceBdesc TceData

/-! ### Entries -/

namespace Tce

/-- The entry grants read or write access. -/
def access (t : Tce) : Bool := t.tceRead || t.tceWrite

def readOnly (t : Tce) : Bool := t.tceRead && !t.tceWrite

theorem rw_eq_zero_iff (t : Tce) : t.rw = 0 ↔ t.readOnly = true := by
  unfold rw readOnly
  cases t.tceRead <;> cases t.tceWrite <;> decide

theorem toNat_pageAddr (t : Tce) : t.pageAddr.toNat = t.tceRpn.toNat % 2 ^ 28 * 4096 := by
  rw [pageAddr, logPgsize, toNat_setWidth, toNat_shiftLeft]
  omega

end Tce

/-- The entry of an I/O page, when it is inside the table. -/
def TceData.entry (td : TceData) (p : Nat) : Option Tce :=
  if p < td.tEntries.toNat then td.tTce.map fun tce => tce p else none

theorem TceData.get_eq_ok_iff {td : TceData} {i : Uval} {t : Tce} :
    td.get i = .ok t ↔ td.entry i.toNat = some t := by
  unfold get entry
  cases td.tTce with
  | none => simp [nonNull]
  | some tce =>
    simp only [nonNull, lt_def]
    split_ifs with hi <;> simp

variable {p : Nat}

theorem TceData.entry_eq_none_of_le {td : TceData} (hp : td.tEntries.toNat ≤ p) :
    td.entry p = none := if_neg (Nat.not_lt.2 hp)

/-! ### Buffers -/

namespace TceBdesc

/-- The first I/O address of the buffer. -/
def start (bd : TceBdesc) : Nat := bd.lbdAddr.toNat

def size (bd : TceBdesc) : Nat := bd.lbdLen.toNat

def page (bd : TceBdesc) : Nat := bd.start / 4096

def offset (bd : TceBdesc) : Nat := bd.start % 4096

def endPage (bd : TceBdesc) : Nat := (bd.start + bd.size + 4095) / 4096

/-- A byte of the buffer is in page `p`. -/
def Touches (bd : TceBdesc) (p : Nat) : Prop := Word.Touches 4096 bd.start bd.size p

theorem start_lt (bd : TceBdesc) : bd.start < 2 ^ 32 := bd.lbdAddr.isLt

theorem size_lt (bd : TceBdesc) : bd.size < 2 ^ 24 := bd.lbdLen.isLt

theorem touches_iff {bd : TceBdesc} : bd.Touches p ↔ 0 < bd.size ∧ bd.page ≤ p ∧ p < bd.endPage :=
  Word.touches_iff (by norm_num)

theorem touches_page {bd : TceBdesc} (hsize : 0 < bd.size) : bd.Touches bd.page :=
  Word.touches_first hsize

end TceBdesc

/-- The loop of `tce_bd_xlate` goes through: the entries of the pages that it looks at are inside
the table, and none of them is read-only. -/
def TceData.Passes (td : TceData) (bd : TceBdesc) : Prop :=
  ∀ p, bd.page ≤ p → p < bd.endPage → ∃ t, td.entry p = some t ∧ t.readOnly = false

/-- The real address of the first byte, by the entry of its page. -/
def Tce.realAddr (t : Tce) (bd : TceBdesc) : Uval := t.pageAddr + BitVec.ofNat 64 bd.offset

theorem Tce.toNat_realAddr (t : Tce) (bd : TceBdesc) :
    (t.realAddr bd).toNat = t.tceRpn.toNat % 2 ^ 28 * 4096 + bd.offset := by
  have hoff : bd.offset < 4096 := Nat.mod_lt _ (by norm_num)
  rw [realAddr, toNat_add, toNat_pageAddr, toNat_ofNat]
  omega

/-! ### The loop -/

section

variable {td : TceData} {ep s : Uval}

/-- The loop answers `true` when every entry from `s` on passes, if it has rounds enough. -/
theorem bdXlateLoop_eq_true_iff : ∀ {n : Nat} {s : Uval}, ep.toNat - s.toNat ≤ n →
    (bdXlateLoop td ep n s = .ok true ↔ ∀ p, s.toNat ≤ p → p < ep.toNat →
      ∃ t, td.entry p = some t ∧ t.readOnly = false)
  | n, s, hn => by
    by_cases hlt : s < ep
    swap
    · have hstop : bdXlateLoop td ep n s = .ok true := by cases n <;> simp [bdXlateLoop, hlt]
      rw [lt_def] at hlt
      exact iff_of_true hstop fun p hp hpe => by omega
    have hpos : s.toNat < ep.toNat := hlt
    have hnext : (s + 1).toNat = s.toNat + 1 := by
      rw [toNat_add, show (1 : Uval).toNat = 1 from rfl]
      omega
    match n with
    | 0 => omega
    | n + 1 =>
      rw [bdXlateLoop]
      split_ifs with hentries
      · -- the page is outside the table
        refine iff_of_false nofun fun hall => ?_
        obtain ⟨t, ht, -⟩ := hall s.toNat le_rfl hpos
        rw [entry_eq_none_of_le hentries] at ht
        cases ht
      rw [seq_ok]
      constructor
      · rintro ⟨t, ht, hrest⟩ p hp hpe
        have hrw : ¬ t.rw = 0 := by
          intro hrw
          rw [if_pos hrw] at hrest
          cases hrest
        rw [if_neg hrw] at hrest
        rw [get_eq_ok_iff] at ht
        rcases Nat.eq_or_lt_of_le hp with rfl | hps
        · exact ⟨t, ht, Bool.not_eq_true _ ▸ mt t.rw_eq_zero_iff.2 hrw⟩
        · exact (bdXlateLoop_eq_true_iff (by omega)).1 hrest p (by omega) hpe
      · intro hall
        obtain ⟨t, ht, hro⟩ := hall s.toNat le_rfl hpos
        have hrw : ¬ t.rw = 0 := by
          rw [t.rw_eq_zero_iff, hro]
          exact nofun
        refine ⟨t, get_eq_ok_iff.2 ht, ?_⟩
        rw [if_neg hrw]
        exact (bdXlateLoop_eq_true_iff (by omega)).2 fun p hp => hall p (by omega)

theorem bdXlateLoop_ok (htce : td.tTce.isSome = true) : ∀ {n : Nat} {s : Uval},
    ep.toNat - s.toNat ≤ n → ∃ b, bdXlateLoop td ep n s = .ok b
  | 0, s, hn => by
    have hlt : ¬ s < ep := by
      rw [lt_def]
      omega
    exact ⟨true, if_neg hlt⟩
  | n + 1, s, hn => by
    rw [bdXlateLoop]
    split_ifs with hlt hentries
    · exact ⟨false, rfl⟩
    · obtain ⟨tce, htce'⟩ := Option.isSome_iff_exists.1 htce
      have hget : td.get s = .ok (tce s.toNat) := by
        have hin : s.toNat < td.tEntries.toNat := Nat.not_le.1 hentries
        rw [get_eq_ok_iff, entry, if_pos hin, htce']
        rfl
      rw [hget, ok_bind]
      split_ifs
      · exact ⟨false, rfl⟩
      refine bdXlateLoop_ok htce ?_
      have hpos : s.toNat < ep.toNat := hlt
      rw [toNat_add, show (1 : Uval).toNat = 1 from rfl]
      omega
    · exact ⟨true, rfl⟩

end

/-! ### The address -/

section

variable {td : TceData} {bd : TceBdesc} {r : Uval}

theorem toNat_lbdAddr (bd : TceBdesc) : (bd.lbdAddr.setWidth 64).toNat = bd.start := by
  rw [toNat_setWidth]
  exact Nat.mod_eq_of_lt (by omega)

theorem alignDown_pgsize (a : Uval) : (alignDown a pgsize).toNat = a.toNat / 4096 * 4096 := by
  have hmask : ~~~(pgsize - 1) = allOnes 64 <<< 12 := by decide
  rw [alignDown, hmask, Word.toNat_and_allOnes_shiftLeft, show 2 ^ 12 = 4096 from rfl]

/-- `tce_bd_xlate` with the numbers of the pages that it computes from the descriptor. -/
theorem tceBdXlate_eq (td : TceData) (bd : TceBdesc) :
    ∃ ep s pg : Uval, ep.toNat = bd.endPage ∧ s.toNat = bd.page ∧ pg.toNat = bd.page ∧
      tceBdXlate td bd = (bdXlateLoop td ep (ep - s).toNat s >>= fun all =>
        if all then td.get pg >>= fun t => .ok (t.realAddr bd) else .ok 0) := by
  have hstart := bd.start_lt
  have hsize := bd.size_lt
  have haddr := toNat_lbdAddr bd
  have hdown := alignDown_pgsize (bd.lbdAddr.setWidth 64)
  have hsum : (bd.lbdAddr.setWidth 64 + bd.lbdLen.setWidth 64 : Uval).toNat
      = bd.start + bd.size := by
    have hlen : (bd.lbdLen.setWidth 64 : Uval).toNat = bd.size := by
      rw [toNat_setWidth]
      exact Nat.mod_eq_of_lt (show bd.size < 2 ^ 64 by omega)
    rw [toNat_add]
    omega
  have hbytes : (bd.lbdAddr.setWidth 64 - alignDown (bd.lbdAddr.setWidth 64) pgsize : Uval)
      = .ofNat 64 bd.offset := by
    apply eq_of_toNat_eq
    rw [toNat_sub, toNat_ofNat, offset]
    omega
  refine ⟨alignUp (bd.lbdAddr.setWidth 64 + bd.lbdLen.setWidth 64) pgsize >>> logPgsize,
    alignDown (bd.lbdAddr.setWidth 64) pgsize >>> logPgsize,
    bd.lbdAddr.setWidth 64 >>> logPgsize, ?_, ?_, ?_, ?_⟩
  · have hup := toNat_pgnums (s := bd.lbdAddr.setWidth 64 + bd.lbdLen.setWidth 64) (by omega)
    rwa [hsum] at hup
  · rw [toNat_ushiftRight, hdown, Nat.shiftRight_eq_div_pow]
    exact Nat.mul_div_cancel _ (by norm_num)
  · rw [toNat_ushiftRight, Nat.shiftRight_eq_div_pow]
    rfl
  · unfold tceBdXlate
    dsimp only
    rw [hbytes]
    rfl

theorem toNat_sub_page (bd : TceBdesc) {ep s : Uval} (hep : ep.toNat = bd.endPage)
    (hs : s.toNat = bd.page) : ep.toNat - s.toNat ≤ (ep - s).toNat := by
  rw [toNat_sub]
  omega

/-- The loop goes through exactly when the pages that it looks at pass. -/
theorem loop_iff_passes {ep s : Uval} (hep : ep.toNat = bd.endPage) (hs : s.toNat = bd.page) :
    bdXlateLoop td ep (ep - s).toNat s = .ok true ↔ td.Passes bd := by
  have hiff := @bdXlateLoop_eq_true_iff td ep _ s (toNat_sub_page bd hep hs)
  rwa [hep, hs] at hiff

/-- **An address is returned** when the loop goes through and the page of the first byte has an
entry: it is the address of the first byte by that entry, unless it is 0. -/
theorem tceBdXlate_eq_ok_iff (hr : r ≠ 0) : tceBdXlate td bd = .ok r ↔
    td.Passes bd ∧ ∃ t, td.entry bd.page = some t ∧ r = t.realAddr bd := by
  obtain ⟨ep, s, pg, hep, hs, hpg, heq⟩ := tceBdXlate_eq td bd
  rw [heq, seq_ok]
  constructor
  · rintro ⟨b, hb, hrest⟩
    cases b with
    | false => exact absurd (Except.ok.inj hrest).symm hr
    | true =>
      obtain ⟨t, ht, hrt⟩ := of_seq hrest
      rw [get_eq_ok_iff, hpg] at ht
      exact ⟨(loop_iff_passes hep hs).1 hb, t, ht, (Except.ok.inj hrt).symm⟩
  · rintro ⟨hpass, t, ht, rfl⟩
    rw [← hpg, ← get_eq_ok_iff] at ht
    refine ⟨true, (loop_iff_passes hep hs).2 hpass, ?_⟩
    rw [if_pos rfl, ht, ok_bind]

/-- The buffer is refused: a page does not pass, or the first byte is at the address 0. -/
def TceData.Refuses (td : TceData) (bd : TceBdesc) : Prop :=
  ¬ td.Passes bd ∨ ∃ t, td.entry bd.page = some t ∧ t.realAddr bd = 0

/-- With a table, `NULL` is returned exactly for the buffers that are refused. -/
theorem tceBdXlate_eq_null_iff (htce : td.tTce.isSome = true) :
    tceBdXlate td bd = .ok 0 ↔ td.Refuses bd := by
  obtain ⟨ep, s, pg, hep, hs, hpg, heq⟩ := tceBdXlate_eq td bd
  obtain ⟨b, hb⟩ := @bdXlateLoop_ok td ep htce _ s (toNat_sub_page bd hep hs)
  rw [heq, hb, ok_bind]
  rcases b with _ | _
  · refine iff_of_true rfl (.inl fun hpass => ?_)
    rw [(loop_iff_passes hep hs).2 hpass] at hb
    cases hb
  have hpass := (loop_iff_passes hep hs).1 hb
  rw [if_pos rfl, seq_ok]
  simp only [get_eq_ok_iff, hpg, Except.ok.injEq]
  constructor
  · exact fun hnull => .inr hnull
  · exact fun hnull => hnull.resolve_left fun hnot => hnot hpass

/-- With a table, there is an answer for every buffer that is not empty. -/
theorem tceBdXlate_ok (htce : td.tTce.isSome = true) (hsize : 0 < bd.size) :
    ∃ r, tceBdXlate td bd = .ok r := by
  by_cases hrefuses : td.Refuses bd
  · exact ⟨0, (tceBdXlate_eq_null_iff htce).2 hrefuses⟩
  obtain ⟨hpass, hnull⟩ := not_or.1 hrefuses
  have hpass := not_not.1 hpass
  obtain ⟨-, hlo, hhi⟩ := touches_iff.1 (touches_page hsize)
  obtain ⟨t, ht, -⟩ := hpass bd.page hlo hhi
  refine ⟨t.realAddr bd, (tceBdXlate_eq_ok_iff fun hzero => ?_).2 ⟨hpass, t, ht, rfl⟩⟩
  exact hnull ⟨t, ht, hzero⟩

end

/-! ### Access -/

section

variable {td : TceData} {bd : TceBdesc}

/-- `tce_bd_xlate` returns an address that is not `NULL`. -/
def TceData.Xlates (td : TceData) (bd : TceBdesc) : Prop := ∃ r, tceBdXlate td bd = .ok r ∧ r ≠ 0

/-- Every page that the buffer touches has an entry inside the table that grants access. -/
def TceData.Granted (td : TceData) (bd : TceBdesc) : Prop :=
  ∀ p, bd.Touches p → ∃ t, td.entry p = some t ∧ t.access = true

/-- The buffer touches a page whose entry is like this. -/
def TceData.TouchesSome (td : TceData) (bd : TceBdesc) (like : Tce → Prop) : Prop :=
  ∃ p t, bd.Touches p ∧ td.entry p = some t ∧ like t

theorem xlates_iff : td.Xlates bd ↔
    td.Passes bd ∧ ∃ t, td.entry bd.page = some t ∧ t.realAddr bd ≠ 0 := by
  constructor
  · rintro ⟨r, hx, hr⟩
    obtain ⟨hpass, t, ht, rfl⟩ := (tceBdXlate_eq_ok_iff hr).1 hx
    exact ⟨hpass, t, ht, hr⟩
  · rintro ⟨hpass, t, ht, hr⟩
    exact ⟨_, (tceBdXlate_eq_ok_iff hr).2 ⟨hpass, t, ht, rfl⟩, hr⟩

theorem passes_iff_of_pos (hsize : 0 < bd.size) : td.Passes bd ↔
    ∀ p, bd.Touches p → ∃ t, td.entry p = some t ∧ t.readOnly = false := by
  unfold Passes
  simp only [touches_iff, hsize, true_and, and_imp]

/-- For an empty buffer the loop looks at the page of the address, unless the address is that of a
page. -/
theorem passes_iff_of_zero (hsize : bd.size = 0) : td.Passes bd ↔
    (bd.offset ≠ 0 → ∃ t, td.entry bd.page = some t ∧ t.readOnly = false) := by
  have hend : bd.endPage = if bd.offset = 0 then bd.page else bd.page + 1 := by
    unfold endPage offset page
    split_ifs <;> omega
  rw [Passes, hend]
  constructor
  · intro hpass hoff
    rw [if_neg hoff] at hpass
    exact hpass _ le_rfl (Nat.lt_succ_self _)
  · intro hpage p hp hpe
    split_ifs at hpe with hoff
    · omega
    · have hpp : p = bd.page := by omega
      rw [hpp]
      exact hpage hoff

/-- What an empty buffer must meet, and how the entries of another one must balance: when all its
pages are inside the table, some grants no access exactly when some is read-only or the address of
the first byte is 0. -/
def TceData.Balanced (td : TceData) (bd : TceBdesc) : Prop :=
  if bd.size = 0 then
    ∃ t, td.entry bd.page = some t ∧ t.realAddr bd ≠ 0 ∧ (bd.offset ≠ 0 → t.readOnly = false)
  else (∀ p, bd.Touches p → p < td.tEntries.toNat ∧ td.tTce.isSome = true) →
    (td.TouchesSome bd (fun t => t.access = false) ↔
      td.TouchesSome bd (fun t => t.readOnly = true) ∨
        ∃ t, td.entry bd.page = some t ∧ t.realAddr bd = 0)

theorem TceData.entry_isSome_iff :
    (∃ t, td.entry p = some t) ↔ p < td.tEntries.toNat ∧ td.tTce.isSome = true := by
  unfold entry
  split_ifs with hp <;> cases td.tTce <;> simp [hp]

/-- When every touched page has an entry, all of them are unlike `like` or some is like it. -/
theorem forall_touches_iff (hin : ∀ p, bd.Touches p → ∃ t, td.entry p = some t)
    (like : Tce → Bool) (b : Bool) :
    (∀ p, bd.Touches p → ∃ t, td.entry p = some t ∧ like t = !b) ↔
      ¬ td.TouchesSome bd (fun t => like t = b) := by
  constructor
  · rintro hall ⟨p, t, hp, ht, hlike⟩
    obtain ⟨t', ht', hnot⟩ := hall p hp
    rw [ht] at ht'
    cases ht'
    rw [hlike] at hnot
    cases b <;> cases hnot
  · intro hnone p hp
    obtain ⟨t, ht⟩ := hin p hp
    refine ⟨t, ht, ?_⟩
    exact Bool.eq_not.2 fun hlike => hnone ⟨p, t, hp, ht, hlike⟩

/-- **The pages that are granted** are what `tce_bd_xlate` returns an address for exactly when the
entries balance: it takes pages without access and refuses pages that can only be read. -/
theorem xlate_granted_iff (td : TceData) (bd : TceBdesc) :
    (td.Xlates bd ↔ td.Granted bd) ↔ td.Balanced bd := by
  rw [xlates_iff]
  rcases Nat.eq_zero_or_pos bd.size with hsize | hsize
  · have hgranted : td.Granted bd := by
      rintro p ⟨o, ho, -⟩
      omega
    rw [TceData.Balanced, if_pos hsize, passes_iff_of_zero hsize, iff_true_right hgranted]
    constructor
    · rintro ⟨hpass, t, ht, hr⟩
      refine ⟨t, ht, hr, fun hoff => ?_⟩
      obtain ⟨t', ht', hro⟩ := hpass hoff
      rw [ht] at ht'
      cases ht'
      exact hro
    · rintro ⟨t, ht, hr, hro⟩
      exact ⟨fun hoff => ⟨t, ht, hro hoff⟩, t, ht, hr⟩
  · rw [TceData.Balanced, if_neg hsize.ne', passes_iff_of_pos hsize]
    by_cases hin : ∀ p, bd.Touches p → ∃ t, td.entry p = some t
    · have hin' : ∀ p, bd.Touches p → p < td.tEntries.toNat ∧ td.tTce.isSome = true :=
        fun p hp => entry_isSome_iff.1 (hin p hp)
      obtain ⟨t, ht⟩ := hin _ (touches_page hsize)
      have hreal : (∃ t, td.entry bd.page = some t ∧ t.realAddr bd ≠ 0) ↔
          ¬ ∃ t, td.entry bd.page = some t ∧ t.realAddr bd = 0 := by
        simp [ht]
      have hpass := forall_touches_iff hin Tce.readOnly true
      have hgranted := forall_touches_iff hin Tce.access false
      simp only [Bool.not_true, Bool.not_false] at hpass hgranted
      rw [TceData.Granted, hpass, hgranted, hreal, ← not_or, not_iff_not]
      exact ⟨fun h _ => h.symm, fun h => (h hin').symm⟩
    · -- a page outside the table: no address, and no grant
      have hpass : ¬ ∀ p, bd.Touches p → ∃ t, td.entry p = some t ∧ t.readOnly = false :=
        fun hall => hin fun p hp => (hall p hp).imp fun _ => And.left
      have hgranted : ¬ td.Granted bd :=
        fun hall => hin fun p hp => (hall p hp).imp fun _ => And.left
      refine iff_of_true (iff_of_false (fun h => hpass h.1) hgranted) fun hin' => ?_
      exact absurd (fun p hp => entry_isSome_iff.2 (hin' p hp)) hin

/-- A page that grants no access is accepted. -/
theorem noAccess_xlates : ¬ ∀ (td : TceData) (bd : TceBdesc), td.Xlates bd ↔ td.Granted bd := by
  intro hall
  -- one entry, with real page 1 and neither bit, and the first 16 bytes of its page
  have hiff := hall ⟨1, some fun _ => ⟨0x1000⟩⟩ ⟨0x0000001000000000⟩
  obtain ⟨t, ht, haccess⟩ := hiff.1 ⟨0x1000, by decide +kernel, by decide⟩ 0 ⟨0, by decide, rfl⟩
  cases ht
  cases haccess

end

/-! ### The bytes of the buffer -/

section

variable {td : TceData} {bd : TceBdesc} {t t0 : Tce} {o : Nat}

/-- The entry of the page of an I/O address maps it to the real address `r`. -/
def TceData.MapsTo (td : TceData) (ioba : Nat) (r : Uval) : Prop :=
  ∃ t, td.entry (ioba / 4096) = some t ∧ t.access = true ∧
    t.tceRpn.toNat * 4096 + ioba % 4096 = r.toNat

/-- When an address is returned, the bytes from there on are the bytes of the buffer. -/
def TceData.MapsBytes (td : TceData) (bd : TceBdesc) : Prop :=
  ∀ r, tceBdXlate td bd = .ok r → r ≠ 0 →
    ∀ o < bd.size, td.MapsTo (bd.start + o) (r + BitVec.ofNat 64 o)

/-- The entries of the buffer grant access, and their real pages follow each other, from the page on
that the shift of the first one gives. -/
def TceData.Consecutive (td : TceData) (bd : TceBdesc) : Prop :=
  ∀ t0, td.entry bd.page = some t0 → ∀ p t, bd.Touches p → td.entry p = some t →
    t.access = true ∧ t.tceRpn.toNat = t0.tceRpn.toNat % 2 ^ 28 + (p - bd.page)

/-- A byte of the buffer is at its offset from the first one exactly when the real page of its entry
is at the distance of the pages. -/
theorem mapsTo_realAddr_iff (ho : o < bd.size) :
    t.tceRpn.toNat * 4096 + (bd.start + o) % 4096 = (t0.realAddr bd + BitVec.ofNat 64 o).toNat ↔
      t.tceRpn.toNat = t0.tceRpn.toNat % 2 ^ 28 + ((bd.start + o) / 4096 - bd.page) := by
  have hsize := bd.size_lt
  rw [toNat_add, t0.toNat_realAddr, toNat_ofNat]
  unfold offset page
  omega

/-- The address that is returned is right for every byte when the real pages follow each other. -/
theorem mapsBytes_of_consecutive (hcons : td.Passes bd →
      (∃ t, td.entry bd.page = some t ∧ t.realAddr bd ≠ 0) → td.Consecutive bd) :
    td.MapsBytes bd := by
  intro r hx hr o ho
  obtain ⟨hpass, t0, ht0, rfl⟩ := (tceBdXlate_eq_ok_iff hr).1 hx
  have htouch : bd.Touches ((bd.start + o) / 4096) := ⟨o, ho, rfl⟩
  have hpos : 0 < bd.size := Nat.zero_lt_of_lt ho
  obtain ⟨t, ht, -⟩ := (passes_iff_of_pos hpos).1 hpass _ htouch
  obtain ⟨haccess, hrpn⟩ := hcons hpass ⟨t0, ht0, hr⟩ t0 ht0 _ t htouch ht
  exact ⟨t, ht, haccess, (mapsTo_realAddr_iff ho).2 hrpn⟩

/-- **The address is right for the whole buffer** exactly when, if the loop goes through and the
first byte is not at address 0, the entries grant access and their real pages follow each other. -/
theorem xlate_maps_bytes_iff (td : TceData) (bd : TceBdesc) : td.MapsBytes bd ↔
    (td.Passes bd → (∃ t, td.entry bd.page = some t ∧ t.realAddr bd ≠ 0) →
      td.Consecutive bd) := by
  refine ⟨?_, mapsBytes_of_consecutive⟩
  rintro hmaps hpass ⟨t0, ht0, hr⟩ t1 ht1 p t ⟨o, ho, rfl⟩ ht
  rw [ht0] at ht1
  cases ht1
  have hx := (tceBdXlate_eq_ok_iff hr).2 ⟨hpass, t0, ht0, rfl⟩
  obtain ⟨t', ht', haccess, haddr⟩ := hmaps _ hx hr o ho
  rw [ht] at ht'
  cases ht'
  exact ⟨haccess, (mapsTo_realAddr_iff ho).1 haddr⟩

/-- Two pages, with the real pages 1 and 5. -/
def scattered : TceData := ⟨2, some fun p => if p = 0 then ⟨0x1003⟩ else ⟨0x5003⟩⟩

/-- The byte after the first page is not at `0x2000`. -/
theorem scattered_not_mapped : ¬ ∀ (td : TceData) (bd : TceBdesc), td.MapsBytes bd := by
  intro hall
  -- the 8192 bytes of both pages
  have hmaps := hall scattered ⟨0x0000200000000000⟩ 0x1000 (by decide +kernel) (by decide) 4096
    (by decide)
  have hsecond : scattered.entry (((⟨0x0000200000000000⟩ : TceBdesc).start + 4096) / 4096)
      = some ⟨0x5003⟩ := by decide +kernel
  obtain ⟨t, ht, -, haddr⟩ := hmaps
  rw [hsecond] at ht
  cases ht
  cases haddr

end

end Rhype
