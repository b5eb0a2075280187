import Rhype.Htab.Basic
import Rhype.Machine.Run
import Rhype.Word.Align

/-!
# The hash table hypercalls as one machine

`HtabCall` is a hypercall with its arguments and `exec` is its execution for a partition.  The
lemmas of this file say once what each call can do; the properties of the table are derived from
them.  A call that succeeds leaves the state as it is or writes one entry of the table of its
partition; `H_ENTER` and `H_REMOVE` also change the counts of a chunk and the hash table of a
page-share manager.
-/

namespace Rhype

open Function Htab

/-- A hash table hypercall with its arguments. -/
inductive HtabCall
  | enter (flags ptex vsidWord rpnWord : Uval)
  | remove (flags ptex avpn : Uval)
  | read (flags ptex : Uval)
  | protect (flags ptex avpn : Uval)
  | clearMod (flags ptex : Uval)
  | clearRef (flags ptex : Uval)
  deriving DecidableEq

/-- The index argument of a call. -/
def HtabCall.ptex : HtabCall → Uval
  | .enter _ ptex _ _ => ptex
  | .remove _ ptex _ => ptex
  | .read _ ptex => ptex
  | .protect _ ptex _ => ptex
  | .clearMod _ ptex => ptex
  | .clearRef _ ptex => ptex

/-- The call of a partition. -/
def exec (h : Hype) (o : OsId) : HtabCall → Hv (HcallRet × Hype)
  | .enter flags ptex vsidWord rpnWord => hEnter h o flags ptex vsidWord rpnWord
  | .remove flags ptex avpn => hRemove h o flags ptex avpn
  | .read flags ptex => hRead h o flags ptex
  | .protect flags ptex avpn => hProtect h o flags ptex avpn
  | .clearMod flags ptex => hClearMod h o flags ptex
  | .clearRef flags ptex => hClearRef h o flags ptex

/-- A step of the hypervisor: a call of some partition. -/
def htabStep (h : Hype) (x : OsId × HtabCall) : Hv Hype := do
  let (_, h) ← exec h x.1 x.2
  .ok h

/-! ### Table accesses -/

namespace Htab

variable {ht ht' : Htab} {i : Nat} {x : Uval} {p : Pte}

/-- The table with entry `i` replaced. -/
def withPte (ht : Htab) (i : Nat) (p : Pte) : Htab :=
  { ht with pte := update ht.pte i p }

@[simp]
theorem withPte_pte_self (p : Pte) : (ht.withPte i p).pte i = p := update_self ..

theorem get_eq_ok : ht.get i = .ok p ↔ i < ht.numPtes ∧ ht.pte i = p := by
  unfold get
  split_ifs with h <;> simp [h]

theorem set_eq_ok : ht.set i p = .ok ht' ↔ i < ht.numPtes ∧ ht.withPte i p = ht' := by
  unfold set withPte
  split_ifs with h <;> simp [h]

theorem getShadow_eq_ok : ht.getShadow i = .ok x ↔ i < ht.numPtes ∧ ht.shadow i = x := by
  unfold getShadow
  split_ifs with h <;> simp [h]

theorem setShadow_eq_ok : ht.setShadow i x = .ok ht' ↔
    i < ht.numPtes ∧ { ht with shadow := update ht.shadow i x } = ht' := by
  unfold setShadow
  split_ifs with h <;> simp [h]

end Htab

/-- `pte_insert` writes the entry and its shadow, over an invalid entry. -/
theorem pteInsert_ok {ht ht' : Htab} {i : Nat} {p : Pte} {lrpn : Uval}
    (hx : pteInsert ht i p.vsidWord p.rpnWord lrpn = .ok ht') :
    i < ht.numPtes ∧ (ht.pte i).v = false ∧
      ht' = { ht.withPte i p with shadow := update ht.shadow i lrpn } := by
  obtain ⟨q, hget, hx⟩ := of_seq hx
  obtain ⟨_, hv, hx⟩ := of_seq hx
  obtain ⟨ht1, hset, hx⟩ := of_seq hx
  obtain ⟨hi, rfl⟩ := get_eq_ok.1 hget
  obtain ⟨-, rfl⟩ := set_eq_ok.1 hset
  obtain ⟨-, rfl⟩ := setShadow_eq_ok.1 hx
  rw [hassert_ok, Bool.not_eq_true'] at hv
  exact ⟨hi, hv, by rw [Pte.ofWords_words]; rfl⟩

/-! ### The records of a chunk -/

section

variable {h h' : Hype} {c : LciId} {laddr : Uval} {i : Nat} {n : BitVec 32}
  {f : HashTable Nat → HashTable Nat}

theorem addPtecount_ok (hx : addPtecount h c n = .ok h') :
    ∃ lci, h.lci c = some lci ∧
      h' = h.setLciObj c { lci with lciPtecount := lci.lciPtecount + n } := by
  obtain ⟨lci, hl, hx⟩ := of_live hx
  cases hx
  exact ⟨lci, hl, rfl⟩

/-- The state after a page-share manager changed its records: its hash table, and the count of the
chunk `n` that has the page. -/
structure Recorded (h : Hype) (c : LciId) (laddr : Uval) (d : BitVec 32) (lci : Lci) (psm : Psm)
    (ht : HashTable Nat) (n : LciId) (real : Lci) (h' : Hype) : Prop where
  lci_eq : h.lci c = some lci
  ops : lci.lciOps = .psm
  psm_eq : h.psm c = some psm
  entry : psm.entry (psmIndex lci laddr) = .ok (some n)
  real_eq : h.lci n = some real
  state : h' = (h.setPsm c { psm with psmPteHt := ht }).setLciObj n
    { real with lciPtecount := real.lciPtecount + d }

theorem psmRecord_ok {lci : Lci} (hl : h.lci c = some lci)
    (hops : lci.lciOps = .psm) (hx : psmRecord h c laddr f n = .ok h') :
    ∃ psm m real, Recorded h c laddr n lci psm (f psm.psmPteHt) m real h' := by
  obtain ⟨psm, hpsm, hx⟩ := of_live hx
  obtain ⟨lci', hl', hx⟩ := of_live hx
  obtain ⟨en, hent, hx⟩ := of_seq hx
  obtain ⟨m, hm, hx⟩ := of_seq hx
  obtain ⟨real, hreal, heq⟩ := addPtecount_ok hx
  rw [nonNull_ok] at hm
  subst hm
  cases hl.symm.trans hl'
  exact ⟨psm, m, real, hl, hops, hpsm, hent, hreal, heq⟩

theorem amoRecord_ok
    (hx : (live (h.lci c) >>= fun lci =>
      match lci.lciOps with
      | .physMem => .ok h
      | .psm => psmRecord h c laddr f n) = .ok h') :
    h' = h ∨ ∃ lci psm m real, Recorded h c laddr n lci psm (f psm.psmPteHt) m real h' := by
  obtain ⟨lci, hl, hx⟩ := of_live hx
  cases hops : lci.lciOps with
  | physMem =>
    rw [hops] at hx
    cases hx
    exact .inl rfl
  | psm =>
    rw [hops] at hx
    exact .inr ⟨lci, psmRecord_ok hl hops hx⟩

theorem amoSavPtep_ok (hx : amoSavPtep h c laddr i = .ok h') :
    h' = h ∨ ∃ lci psm m real,
      Recorded h c laddr 1 lci psm
        (psm.psmPteHt.insert psmPteHash (fun _ _ => []) (laddr, i)) m real h' :=
  amoRecord_ok (f := fun ht => ht.insert psmPteHash (fun _ _ => []) (laddr, i)) hx

theorem amoRemPtep_ok (hx : amoRemPtep h c laddr i = .ok h') :
    h' = h ∨ ∃ lci psm m real,
      Recorded h c laddr (-1) lci psm (psm.psmPteHt.unlink psmPteHash laddr i) m real h' :=
  amoRecord_ok (f := fun ht => ht.unlink psmPteHash laddr i) hx

theorem addPtecount_os (hx : addPtecount h c n = .ok h') : h'.os = h.os := by
  obtain ⟨_, -, rfl⟩ := addPtecount_ok hx
  rfl

theorem Recorded.os {lci real : Lci} {psm : Psm} {ht : HashTable Nat} {m : LciId}
    (hr : Recorded h c laddr n lci psm ht m real h') : h'.os = h.os := by
  rw [hr.state]
  rfl

theorem amoSavPtep_os (hx : amoSavPtep h c laddr i = .ok h') : h'.os = h.os := by
  rcases amoSavPtep_ok hx with rfl | ⟨_, _, _, _, hr⟩
  · rfl
  · exact hr.os

theorem amoRemPtep_os (hx : amoRemPtep h c laddr i = .ok h') : h'.os = h.os := by
  rcases amoRemPtep_ok hx with rfl | ⟨_, _, _, _, hr⟩
  · rfl
  · exact hr.os

end

/-! ### What the calls do -/

section

variable {h h' : Hype} {o : OsId} {ret : HcallRet} {flags ptex avpn : Uval}

/-- The state after a call wrote entry `i` of the table of the partition. -/
def wrotePte (h : Hype) (o : OsId) (os : Os) (i : Nat) (p : Pte) : Hype :=
  h.setOs o { os with htab := os.htab.withPte i p }

theorem hRead_ok (hx : hRead h o flags ptex = .ok (ret, h')) : h' = h := by
  obtain ⟨os, -, hx⟩ := of_seq hx
  split_ifs at hx
  · cases hx; rfl
  · cases hx; rfl
  · cases hx; rfl
  · obtain ⟨_, -, hx⟩ := of_seq hx
    obtain ⟨_, -, hx⟩ := of_seq hx
    obtain ⟨_, -, hx⟩ := of_seq hx
    obtain ⟨_, -, hx⟩ := of_seq hx
    cases hx; rfl
  · obtain ⟨_, -, hx⟩ := of_seq hx
    cases hx; rfl

/-- `H_PROTECT` only writes a valid entry, and leaves it valid. -/
theorem hProtect_ok (hx : hProtect h o flags ptex avpn = .ok (ret, h')) :
    h' = h ∨ ∃ os, h.os o = some os ∧ ptex.toNat < os.htab.numPtes ∧
      (os.htab.pte ptex.toNat).v = true ∧
      h' = wrotePte h o os ptex.toNat { os.htab.pte ptex.toNat with
        pp1 := (flags &&& (hPp1 ||| hPp2)).setWidth 2, n := flag flags hN, v := true } := by
  obtain ⟨os, hos, hx⟩ := of_live hx
  split_ifs at hx
  · cases hx; exact .inl rfl
  obtain ⟨p, hget, hx⟩ := of_seq hx
  obtain ⟨hi, rfl⟩ := get_eq_ok.1 hget
  split_ifs at hx with hv
  · cases hx; exact .inl rfl
  · cases hx; exact .inl rfl
  obtain ⟨ht, hset, hx⟩ := of_seq hx
  obtain ⟨-, rfl⟩ := set_eq_ok.1 hset
  cases hx
  exact .inr ⟨os, hos, hi, by simpa using hv, rfl⟩

theorem hClearMod_ok (hx : hClearMod h o flags ptex = .ok (ret, h')) :
    h' = h ∨ ∃ os, h.os o = some os ∧ ptex.toNat < os.htab.numPtes ∧
      (os.htab.pte ptex.toNat).c = true ∧
      h' = wrotePte h o os ptex.toNat { os.htab.pte ptex.toNat with c := false, v := true } := by
  obtain ⟨os, hos, hx⟩ := of_live hx
  split_ifs at hx
  · cases hx; exact .inl rfl
  obtain ⟨p, hget, hx⟩ := of_seq hx
  obtain ⟨hi, rfl⟩ := get_eq_ok.1 hget
  split_ifs at hx with hc
  · cases hx; exact .inl rfl
  obtain ⟨ht, hset, hx⟩ := of_seq hx
  obtain ⟨-, rfl⟩ := set_eq_ok.1 hset
  cases hx
  exact .inr ⟨os, hos, hi, by simpa using hc, rfl⟩

theorem hClearRef_ok (hx : hClearRef h o flags ptex = .ok (ret, h')) :
    h' = h ∨ ∃ os, h.os o = some os ∧ ptex.toNat < os.htab.numPtes ∧
      h' = wrotePte h o os ptex.toNat { os.htab.pte ptex.toNat with r := false } := by
  obtain ⟨os, hos, hx⟩ := of_live hx
  split_ifs at hx
  · cases hx; exact .inl rfl
  obtain ⟨p, hget, hx⟩ := of_seq hx
  obtain ⟨hi, rfl⟩ := get_eq_ok.1 hget
  split_ifs at hx
  · cases hx; exact .inl rfl
  obtain ⟨ht, hset, hx⟩ := of_seq hx
  obtain ⟨-, rfl⟩ := set_eq_ok.1 hset
  cases hx
  exact .inr ⟨os, hos, hi, rfl⟩

/-- `H_REMOVE` clears the valid bit of its entry; for a valid entry the chunk of its page lets go of
it first. -/
theorem hRemove_ok (hx : hRemove h o flags ptex avpn = .ok (ret, h')) :
    h' = h ∨ ∃ os h1, h.os o = some os ∧ ptex.toNat < os.htab.numPtes ∧
      h' = wrotePte h1 o os ptex.toNat { os.htab.pte ptex.toNat with v := false } ∧
      (((os.htab.pte ptex.toNat).v = false ∧ h1 = h) ∨
        (os.htab.pte ptex.toNat).v = true ∧ ∃ c h2,
          laddrToLci os (os.htab.shadow ptex.toNat <<< logPgsize) = .ok (some c) ∧
          amoRemPtep h c (os.htab.shadow ptex.toNat <<< logPgsize) ptex.toNat = .ok h2 ∧
          addPtecount h2 c (-1) = .ok h1) := by
  obtain ⟨os, hos, hx⟩ := of_live hx
  split_ifs at hx
  · cases hx; exact .inl rfl
  obtain ⟨refused, -, hx⟩ := of_seq hx
  split_ifs at hx
  · cases hx; exact .inl rfl
  obtain ⟨regs, -, hx⟩ := of_seq hx
  obtain ⟨p, hget, hx⟩ := of_seq hx
  obtain ⟨hi, rfl⟩ := get_eq_ok.1 hget
  split_ifs at hx with hv
  · obtain ⟨x, hsh, hx⟩ := of_seq hx
    obtain ⟨-, rfl⟩ := getShadow_eq_ok.1 hsh
    obtain ⟨_ | c, hlci, hx⟩ := of_seq hx
    · cases hx; exact .inl rfl
    obtain ⟨h2, hrem, hx⟩ := of_seq hx
    obtain ⟨h1, hadd, hx⟩ := of_seq hx
    obtain ⟨ht, hset, hx⟩ := of_seq hx
    obtain ⟨-, rfl⟩ := set_eq_ok.1 hset
    cases hx
    exact .inr ⟨os, h1, hos, hi, rfl, .inr ⟨hv, c, h2, hlci, hrem, hadd⟩⟩
  obtain ⟨ht, hset, hx⟩ := of_seq hx
  obtain ⟨-, rfl⟩ := set_eq_ok.1 hset
  cases hx
  exact .inr ⟨os, h, hos, hi, rfl, .inl ⟨by simpa using hv, rfl⟩⟩

/-! ### `H_ENTER` -/

/-- The state after a new entry `p` for the logical page `lrpn` was written at `i`. -/
def insertedPte (h : Hype) (o : OsId) (os : Os) (i : Nat) (p : Pte) (lrpn : Uval) : Hype :=
  h.setOs o { os with
    htab := { os.htab.withPte i p with shadow := update os.htab.shadow i lrpn } }

variable {p : Pte} {os : Os} {c : LciId} {laddr lrpn vsidWord rpnWord raddr : Uval}

/-- The slot loop finds all its slots valid, or inserts the entry in the first one that is not. -/
theorem enterLoop_ok (hos : h.os o = some os) :
    ∀ (n i : Nat), enterLoop h o c laddr lrpn p n i = .ok (ret, h') →
    (ret = ⟨hPtegFull, []⟩ ∧ h' = h ∧ ∀ k, i ≤ k → k < i + n → (os.htab.pte k).v = true) ∨
      ∃ j h1, i ≤ j ∧ j < i + n ∧ (∀ k, i ≤ k → k < j → (os.htab.pte k).v = true) ∧
        j < os.htab.numPtes ∧ (os.htab.pte j).v = false ∧ amoSavPtep h c laddr j = .ok h1 ∧
        addPtecount (insertedPte h1 o os j p lrpn) c 1 = .ok h' ∧
        ret = ⟨hSuccess, [(4, BitVec.ofNat 64 j)]⟩
  | 0, i, hx => by
    cases hx
    exact .inl ⟨rfl, rfl, fun k hk hlt => by omega⟩
  | n + 1, i, hx => by
    rw [enterLoop, hos, live, ok_bind] at hx
    obtain ⟨q, hget, hx⟩ := of_seq hx
    obtain ⟨-, rfl⟩ := get_eq_ok.1 hget
    split_ifs at hx with hv
    · obtain ⟨h1, hsav, hx⟩ := of_seq hx
      obtain ⟨ht, hins, hx⟩ := of_seq hx
      obtain ⟨h2, hadd, hx⟩ := of_seq hx
      cases hx
      obtain ⟨hi, hfree, rfl⟩ := pteInsert_ok hins
      exact .inr ⟨i, h1, le_rfl, by omega, fun k hk hlt => by omega, hi, hfree, hsav, hadd, rfl⟩
    -- slot `i` is valid, and the loop goes on behind it
    have hvi : (os.htab.pte i).v = true := by simpa using hv
    have hext : ∀ m, (∀ k, i + 1 ≤ k → k < m → (os.htab.pte k).v = true) →
        ∀ k, i ≤ k → k < m → (os.htab.pte k).v = true := by
      intro m hall k hk hlt
      rcases Nat.eq_or_lt_of_le hk with rfl | hlt'
      · exact hvi
      · exact hall k hlt' hlt
    rcases enterLoop_ok hos n (i + 1) hx with ⟨hret, hh, hall⟩ | ⟨j, h1, hij, hjn, hall, hrest⟩
    · exact .inl ⟨hret, hh, hext _ fun k hk hlt => hall k hk (by omega)⟩
    · exact .inr ⟨j, h1, by omega, by omega, hext _ hall, hrest⟩

theorem enterLoop_full (hos : h.os o = some os) : ∀ (n i : Nat),
    (∀ k, i ≤ k → k < i + n → k < os.htab.numPtes ∧ (os.htab.pte k).v = true) →
    enterLoop h o c laddr lrpn p n i = .ok (⟨hPtegFull, []⟩, h)
  | 0, _, _ => rfl
  | n + 1, i, hall => by
    obtain ⟨hi, hv⟩ := hall i le_rfl (by omega)
    rw [enterLoop, hos, live, ok_bind, get_eq_ok.2 ⟨hi, rfl⟩, ok_bind, if_neg (by simp [hv])]
    exact enterLoop_full hos n (i + 1) fun k hk hlt => hall k (by omega) (by omega)

/-- The checks that `H_ENTER` makes before it looks for a slot. -/
structure EnterChecks (h : Hype) (flags ptex : Uval) (p : Pte) (os : Os) (pgshift lpbits : Nat)
    (c : LciId) (raddr : Uval) : Prop where
  flags_ok : checkUnsup flags = false
  shift : pageShift os p = some (pgshift, lpbits)
  lookup : laddrToLci os (logicalRpn p pgshift <<< logPgsize) = .ok (some c)
  translate : lciTranslate h c (logicalRpn p pgshift <<< logPgsize) ((1 : Uval) <<< pgshift)
    = .ok raddr
  valid : raddr ≠ invalidPhysicalAddress
  rpn_ne_zero : raddr >>> logPgsize ≠ 0
  index_ok : checkIndex os ptex = false
  /-- The check of the protection bits returns; its answer is not used. -/
  wimg : ∃ b, amoCheckWimg h c
    { p with rpn := (raddr >>> logPgsize ||| BitVec.ofNat 64 lpbits).setWidth 50 } = .ok b

/-- The first slot that `H_ENTER` looks at. -/
def enterStart (flags ptex : Uval) : Nat :=
  if flag flags hExact then ptex.toNat else (ptex &&& ~~~7).toNat

/-- The number of slots that `H_ENTER` looks at. -/
def enterCount (flags : Uval) : Nat := if flag flags hExact then 1 else 8

/-- After its checks `H_ENTER` is the slot loop, over one slot or over a group. -/
theorem EnterChecks.hEnter_eq {pgshift lpbits : Nat} (hos : h.os o = some os)
    (hc : EnterChecks h flags ptex (.ofWords vsidWord rpnWord) os pgshift lpbits c raddr) :
    hEnter h o flags ptex vsidWord rpnWord = enterLoop h o c
      (logicalRpn (.ofWords vsidWord rpnWord) pgshift <<< logPgsize)
      (logicalRpn (.ofWords vsidWord rpnWord) pgshift)
      (localPte (.ofWords vsidWord rpnWord) (raddr >>> logPgsize) (BitVec.ofNat 64 lpbits))
      (enterCount flags) (enterStart flags ptex) := by
  obtain ⟨b, hb⟩ := hc.wimg
  rw [hEnter, hos, live, ok_bind, if_neg (by simp [hc.flags_ok]), hc.shift]
  dsimp only
  rw [hc.lookup, ok_bind]
  dsimp only
  rw [hc.translate, ok_bind, if_neg hc.valid, if_neg hc.rpn_ne_zero, if_neg (by simp [hc.index_ok]),
    hb, ok_bind]
  unfold enterCount enterStart
  split_ifs <;> rfl

/-- `H_ENTER` refuses the call and leaves the state as it is, or it passes its checks. -/
theorem hEnter_cases (hx : hEnter h o flags ptex vsidWord rpnWord = .ok (ret, h')) :
    ((ret.rc = hParameter ∨ ret.rc = hPrivilege) ∧ h' = h) ∨ ∃ os pgshift lpbits c raddr,
      h.os o = some os ∧
      EnterChecks h flags ptex (.ofWords vsidWord rpnWord) os pgshift lpbits c raddr := by
  have herr : ∀ {rc : Sval}, (rc = hParameter ∨ rc = hPrivilege) →
      (.ok (⟨rc, []⟩, h) : Hv (HcallRet × Hype)) = .ok (ret, h') →
        (ret.rc = hParameter ∨ ret.rc = hPrivilege) ∧ h' = h := by
    rintro rc hrc ⟨⟩
    exact ⟨hrc, rfl⟩
  obtain ⟨os, hos, hx⟩ := of_live hx
  by_cases hunsup : checkUnsup flags = true
  · rw [if_pos hunsup] at hx
    exact .inl (herr (.inl rfl) hx)
  rw [if_neg hunsup] at hx
  rcases hshift : pageShift os (.ofWords vsidWord rpnWord) with _ | sl
  · rw [hshift] at hx
    exact .inl (herr (.inl rfl) hx)
  obtain ⟨pgshift, lpbits⟩ := sl
  rw [hshift] at hx
  obtain ⟨_ | c, hlook, hx⟩ := of_seq hx
  · exact .inl (herr (.inl rfl) hx)
  obtain ⟨raddr, htr, hx⟩ := of_seq hx
  by_cases hinv : raddr = invalidPhysicalAddress
  · rw [if_pos hinv] at hx
    exact .inl (herr (.inl rfl) hx)
  rw [if_neg hinv] at hx
  by_cases hpriv : raddr >>> logPgsize = 0
  · rw [if_pos hpriv] at hx
    exact .inl (herr (.inr rfl) hx)
  rw [if_neg hpriv] at hx
  by_cases hidx : checkIndex os ptex = true
  · rw [if_pos hidx] at hx
    exact .inl (herr (.inl rfl) hx)
  rw [if_neg hidx] at hx
  obtain ⟨b, hwimg, -⟩ := of_seq hx
  exact .inr ⟨os, pgshift, lpbits, c, raddr, hos, by simpa using hunsup, hshift, hlook, htr,
    hinv, hpriv, by simpa using hidx, b, hwimg⟩

/-- What is known after a successful `H_ENTER`: the partition `os`, the page size and the large-page
bits of the entry, the chunk `c` of its page, the real address `raddr` of the page, the slot `j`,
and the state `h1` after the chunk recorded the entry. -/
structure EnterStep (h : Hype) (o : OsId) (p : Pte) (os : Os) (pgshift lpbits : Nat) (c : LciId)
    (raddr : Uval) (j : Nat) (h1 : Hype) (ret : HcallRet) (h' : Hype) : Prop where
  os_eq : h.os o = some os
  shift : pageShift os p = some (pgshift, lpbits)
  lookup : laddrToLci os (logicalRpn p pgshift <<< logPgsize) = .ok (some c)
  translate : lciTranslate h c (logicalRpn p pgshift <<< logPgsize) ((1 : Uval) <<< pgshift)
    = .ok raddr
  valid : raddr ≠ invalidPhysicalAddress
  slot_lt : j < os.htab.numPtes
  slot_free : (os.htab.pte j).v = false
  sav : amoSavPtep h c (logicalRpn p pgshift <<< logPgsize) j = .ok h1
  add : addPtecount (insertedPte h1 o os j
    (localPte p (raddr >>> logPgsize) (BitVec.ofNat 64 lpbits)) (logicalRpn p pgshift)) c 1 = .ok h'
  ret_eq : ret = ⟨hSuccess, [(4, BitVec.ofNat 64 j)]⟩

theorem EnterStep.slot_after {pgshift lpbits j : Nat}
    {h1 : Hype} (st : EnterStep h o p os pgshift lpbits c raddr j h1 ret h') :
    ∃ os', h'.os o = some os' ∧ os'.htab.numPtes = os.htab.numPtes ∧
      os'.htab.pte j = localPte p (raddr >>> logPgsize) (BitVec.ofNat 64 lpbits) ∧
      os'.htab.shadow j = logicalRpn p pgshift := by
  rw [addPtecount_os st.add]
  exact ⟨_, update_self .., rfl, update_self .., update_self ..⟩

theorem hEnter_ok (hx : hEnter h o flags ptex vsidWord rpnWord = .ok (ret, h')) :
    (ret.rc ≠ hSuccess ∧ h' = h) ∨ ∃ os pgshift lpbits c raddr j h1,
      EnterStep h o (.ofWords vsidWord rpnWord) os pgshift lpbits c raddr j h1 ret h' := by
  rcases hEnter_cases hx with ⟨hrc, hh⟩ | ⟨os, pgshift, lpbits, c, raddr, hos, hc⟩
  · refine .inl ⟨?_, hh⟩
    rcases hrc with hrc | hrc <;> (rw [hrc]; decide)
  rw [hc.hEnter_eq hos] at hx
  rcases enterLoop_ok hos _ _ hx with ⟨rfl, rfl, -⟩ | ⟨j, h1, -, -, -, hj, hfree, hsav, hadd, hret⟩
  · exact .inl ⟨by decide, rfl⟩
  · exact .inr ⟨os, pgshift, lpbits, c, raddr, j, h1, hos, hc.shift, hc.lookup, hc.translate,
      hc.valid, hj, hfree, hsav, hadd, hret⟩

end

/-! ### Groups of entries -/

theorem Htab.eight_dvd_numPtes (ht : Htab) : 8 ∣ ht.numPtes := by
  rcases ht.size_ok with hzero | ⟨log, hlog, -, hsize⟩
  · rw [hzero]
    exact Nat.dvd_zero 8
  · rw [hsize]
    exact Nat.pow_dvd_pow 2 (show 3 ≤ log - 4 by omega)

theorem toNat_group_eight (x : Uval) : (x &&& ~~~7).toNat = x.toNat / 8 * 8 :=
  Word.toNat_and_allOnes_shiftLeft x 3

end Rhype
