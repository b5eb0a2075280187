import Rhype.Crq.Basic
import Rhype.Tce.Equiv.Xlate

/-!
# The bytes that `crq_try_copy` copies

The buffers of a copy are looked up with a descriptor, whose length has 24 bits; the copy itself has
the full length.  `crqTryCopy_inside_iff` says when every byte of a copy is in a page that the
tables of the two ends map: the real pages from the first one on, as many as the full length needs,
all have to be in the table.
-/

namespace Rhype

open BitVec hiding not_not
open TceBdesc

/-! ### The descriptor of a lookup -/

theorem lbdLen_crqBdesc (addr size : Uval) : (crqBdesc addr size).lbdLen = size.setWidth 24 := by
  refine eq_of_getLsbD_eq fun i hi => ?_
  simp only [lbdLen, crqBdesc, setAddr, setLen,
    getLsbD_extractLsb', getLsbD_append, getLsbD_setWidth]
  have h3 : i < 32 := by omega
  simp [h3]

theorem lbdAddr_crqBdesc (addr size : Uval) : (crqBdesc addr size).lbdAddr = addr.setWidth 32 := by
  refine eq_of_getLsbD_eq fun i hi => ?_
  simp only [lbdAddr, crqBdesc, setAddr, getLsbD_extractLsb', getLsbD_append, getLsbD_setWidth]
  simp [hi]

theorem size_crqBdesc (addr size : Uval) : (crqBdesc addr size).size = size.toNat % 2 ^ 24 := by
  rw [TceBdesc.size, lbdLen_crqBdesc, toNat_setWidth]

theorem start_crqBdesc (addr size : Uval) : (crqBdesc addr size).start = addr.toNat % 2 ^ 32 := by
  rw [start, lbdAddr_crqBdesc, toNat_setWidth]

/-! ### Real pages -/

/-- The real address is in a page that an entry of the table maps. -/
def TceData.MapsReal (td : TceData) (a : Uval) : Prop :=
  ∃ p t, td.entry p = some t ∧ t.access = true ∧ t.tceRpn.toNat = a.toNat / 4096

/-- The real pages from that of the first byte on, as many as `len` bytes need, are mapped by
entries of the table. -/
def TceData.RunsOn (td : TceData) (bd : TceBdesc) (len : Nat) : Prop :=
  ∃ t, td.entry bd.page = some t ∧ ∀ k, Word.Touches 4096 bd.offset len k →
    ∃ p t', td.entry p = some t' ∧ t'.access = true ∧
      t'.tceRpn.toNat = (t.tceRpn.toNat % 2 ^ 28 + k) % 2 ^ 52

section

variable {td : TceData} {bd : TceBdesc} {t : Tce}

theorem realAddr_add_page (t : Tce) (bd : TceBdesc) (o : Nat) :
    (t.realAddr bd + BitVec.ofNat 64 o).toNat / 4096
      = (t.tceRpn.toNat % 2 ^ 28 + (bd.offset + o) / 4096) % 2 ^ 52 := by
  rw [toNat_add, t.toNat_realAddr, toNat_ofNat]
  omega

theorem runsOn_iff (ht : td.entry bd.page = some t) (len : Nat) : td.RunsOn bd len ↔
    ∀ o < len, td.MapsReal (t.realAddr bd + BitVec.ofNat 64 o) := by
  constructor
  · rintro ⟨t', ht', hpages⟩ o ho
    rw [ht] at ht'
    cases ht'
    obtain ⟨p, u, hu, haccess, hrpn⟩ := hpages _ ⟨o, ho, rfl⟩
    exact ⟨p, u, hu, haccess, hrpn.trans (realAddr_add_page t bd o).symm⟩
  · intro hbytes
    refine ⟨t, ht, ?_⟩
    rintro k ⟨o, ho, rfl⟩
    obtain ⟨p, u, hu, haccess, hrpn⟩ := hbytes o ho
    exact ⟨p, u, hu, haccess, hrpn.trans (realAddr_add_page t bd o)⟩

/-! ### Copies -/

/-- Every byte that is read is in a page of the table of the source, and every byte that is written
in a page of the table of the destination.  After a lookup behind the end of a table the addresses
can be anything, so that there must be nothing to copy. -/
def CopyInside (p : CrqPair) (len : Uval) : Hv (Sval × Option CrqCopy) → Prop
  | .ok (_, some c) => ∀ o < c.len.toNat,
      (p.ends c.src).cpTceData.MapsReal (c.sPa + BitVec.ofNat 64 o) ∧
      (p.ends (!c.src)).cpTceData.MapsReal (c.dPa + BitVec.ofNat 64 o)
  | .ok (_, none) => True
  | .error _ => len = 0

/-- The buffers of a copy fit the tables: there is nothing to copy, a buffer is refused, or the real
pages run on for the full length. -/
def CopyFits (std dtd : TceData) (sbd dbd : TceBdesc) (len : Nat) : Prop :=
  len = 0 ∨ dtd.Refuses dbd ∨ (∃ t, dtd.entry dbd.page = some t) ∧
    (std.Refuses sbd ∨ dtd.RunsOn dbd len ∧ std.RunsOn sbd len)

theorem tceBdXlate_cases (htce : td.tTce.isSome = true) (bd : TceBdesc) :
    (td.Refuses bd ∧ tceBdXlate td bd = .ok 0) ∨
    (¬ td.Refuses bd ∧ ∃ t, td.entry bd.page = some t ∧ t.realAddr bd ≠ 0 ∧
      tceBdXlate td bd = .ok (t.realAddr bd)) ∨
    (¬ td.Refuses bd ∧ td.entry bd.page = none ∧ ∃ e, tceBdXlate td bd = .error e) := by
  by_cases href : td.Refuses bd
  · exact .inl ⟨href, (tceBdXlate_eq_null_iff htce).2 href⟩
  have hpass : td.Passes bd := by
    by_contra hnot
    exact href (.inl hnot)
  cases hentry : td.entry bd.page with
  | some t =>
    have hr : t.realAddr bd ≠ 0 := fun hzero => href (.inr ⟨t, hentry, hzero⟩)
    exact .inr (.inl ⟨href, t, rfl, hr, (tceBdXlate_eq_ok_iff hr).2 ⟨hpass, t, hentry, rfl⟩⟩)
  | none =>
    refine .inr (.inr ⟨href, rfl, ?_⟩)
    rcases hx : tceBdXlate td bd with e | r
    · exact ⟨e, rfl⟩
    by_cases hr : r = 0
    · rw [hr] at hx
      exact absurd ((tceBdXlate_eq_null_iff htce).1 hx) href
    · obtain ⟨-, t, ht, -⟩ := (tceBdXlate_eq_ok_iff hr).1 hx
      rw [hentry] at ht
      cases ht

/-- **Every byte of a copy is in a mapped page** exactly when, for a caller that owns one of the
ends, the buffers fit the tables at the full length. -/
theorem crqTryCopy_inside_iff (p : CrqPair) (os : OsId) (sliobn : BitVec 32) (sioba : Uval)
    (dliobn : BitVec 32) (dioba len : Uval) :
    CopyInside p len (crqTryCopy p os sliobn sioba dliobn dioba len) ↔
      ∀ src, crqCopySource p sliobn dliobn = some src →
        some os = (p.ends src).cpOs ∨ some os = (p.ends (!src)).cpOs →
        CopyFits (p.ends src).cpTceData (p.ends (!src)).cpTceData (crqBdesc sioba len)
          (crqBdesc dioba len) len.toNat := by
  unfold crqTryCopy
  rcases hsource : crqCopySource p sliobn dliobn with _ | src
  · exact iff_of_true trivial nofun
  dsimp only
  have hone : ∀ Q : Bool → Prop, (∀ s, some src = some s → Q s) ↔ Q src := by simp
  rw [hone]
  split_ifs with hown
  · refine iff_of_true trivial fun hor => ?_
    rcases hor with hor | hor
    · exact absurd hor hown.1
    · exact absurd hor hown.2
  have hor : some os = (p.ends src).cpOs ∨ some os = (p.ends (!src)).cpOs := by
    rwa [not_and_or, not_not, not_not] at hown
  have hzero : len.toNat = 0 ↔ len = 0 := by
    rw [← toNat_inj]
    rfl
  rw [forall_prop_of_true hor]
  unfold crqAddrLookup
  rcases tceBdXlate_cases (p.ends (!src)).setUp (crqBdesc dioba len) with
    ⟨href, hd⟩ | ⟨href, t, ht, hr, hd⟩ | ⟨href, hnone, e, hd⟩
  · rw [hd]
    exact iff_of_true trivial (.inr (.inl href))
  · rw [hd, ok_bind, if_pos hr]
    rcases tceBdXlate_cases (p.ends src).setUp (crqBdesc sioba len) with
      ⟨href', hs⟩ | ⟨href', t', ht', hr', hs⟩ | ⟨href', hnone', e, hs⟩
    · rw [hs]
      exact iff_of_true trivial (.inr (.inr ⟨⟨t, ht⟩, .inl href'⟩))
    · rw [hs, ok_bind, if_pos hr']
      rw [CopyFits, runsOn_iff ht, runsOn_iff ht']
      constructor
      · intro hbytes
        have hd := fun o ho => (hbytes o ho).2
        have hs := fun o ho => (hbytes o ho).1
        exact .inr (.inr ⟨⟨t, ht⟩, .inr ⟨hd, hs⟩⟩)
      · rintro (hlen | hcon | ⟨-, hcon | ⟨hd, hs⟩⟩) o ho
        · rw [hlen] at ho
          cases ho
        · exact absurd hcon href
        · exact absurd hcon href'
        · exact ⟨hs o ho, hd o ho⟩
    · rw [hs]
      refine ⟨fun hlen => .inl (hzero.2 hlen), ?_⟩
      rintro (hlen | hcon | ⟨-, hcon | ⟨-, t', ht', -⟩⟩)
      · exact hzero.1 hlen
      · exact absurd hcon href
      · exact absurd hcon href'
      · rw [hnone'] at ht'
        cases ht'
  · rw [hd]
    refine ⟨fun hlen => .inl (hzero.2 hlen), ?_⟩
    rintro (hlen | hcon | ⟨⟨t, ht⟩, -⟩)
    · exact hzero.1 hlen
    · exact absurd hcon href
    · rw [hnone] at ht
      cases ht

end

/-- An end of partition `os` that is not registered, with the given table. -/
def freshEnd (os : OsId) (entries : Uval) (tce : Nat → Tce) : CrqEnd where
  cpOs := some os
  cpTceData := ⟨entries, some tce⟩
  cpFlags := crqFlagValid
  cpNumEntries := 0
  cpNextEntry := 0
  cpCrqs := 0
  setUp := rfl

/-- The ends of the partitions 0 and 1, each with one page that can be read and written. -/
def onePagePair : CrqPair where
  ends := fun e => if e then freshEnd 1 1 fun _ => ⟨0x5003⟩ else freshEnd 0 1 fun _ => ⟨0x1003⟩
  devId := fun e => if e then 1 else 0

/-- A copy of `2^24` bytes is looked up as one of length 0, and goes far behind the pages. -/
theorem copy_leaves_page :
    ¬ ∀ p os sliobn sioba dliobn dioba len,
      CopyInside p len (crqTryCopy p os sliobn sioba dliobn dioba len) := by
  intro hall
  have hinside := hall onePagePair 0 0x300000 0 0x300001 0 0x1000000
  -- the second page of the source
  obtain ⟨p, t, ht, -, hrpn⟩ := (hinside 4096 (by decide)).1
  have hp : p < 1 := by
    by_contra hp
    rw [TceData.entry_eq_none_of_le (Nat.not_lt.1 hp)] at ht
    cases ht
  obtain rfl : p = 0 := by omega
  cases ht
  cases hrpn

end Rhype
