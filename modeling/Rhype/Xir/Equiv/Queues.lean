import Mathlib.Data.List.Count
import Mathlib.Algebra.Group.Pi.Basic
import Rhype.Machine.Run
import Rhype.Slots.Basic
import Rhype.Xir.Equiv.Source
import Rhype.Xir.Queues

/-!
# Outstanding sources

A source is outstanding from the time at which it is put into the ring of a thread until its
interrupt is ended, and it should be in a ring at most once.  Two things break this.  A partition
may end an interrupt that it has not taken; then the source is in the ring without the flag, and can
be put there again.  And when the ring is full, the flag is set although the source is in no ring.
As long as neither happens, every source is in order: `sources_good_iff`.
-/

namespace Rhype

open BitVec Function List Nat Xir XirSys

/-! ### Lines -/

/-- Interrupts without their representation: which sources are outstanding, what the threads have
still to take, and what they have taken and not ended. -/
structure Lines (σ τ : Type) where
  out : σ → Bool
  queue : τ → List σ
  taken : σ → Bool

namespace Lines

variable {σ τ : Type} [DecidableEq σ] {v : Lines σ τ} {src a : σ} {thr : τ} {rest : List σ}

/-- How often the source is in each queue. -/
def counts (v : Lines σ τ) (src : σ) (thr : τ) : Nat := (v.queue thr).count src

def Queued (v : Lines σ τ) (src : σ) : Prop := ∃ thr, v.counts src thr ≠ 0

theorem not_queued_iff : ¬ v.Queued src ↔ v.counts src = 0 := by
  rw [Queued, not_exists, funext_iff]
  exact forall_congr' fun thr => not_not

variable [DecidableEq τ]

/-- The source is in one queue, and there once. -/
def QueuedOnce (v : Lines σ τ) (src : σ) : Prop := ∃ thr, v.counts src = Pi.single thr 1

/-- The source is outstanding exactly when it is either queued, once, or taken and not ended; and it
is not queued twice. -/
structure Good (v : Lines σ τ) (src : σ) : Prop where
  outstanding : v.out src = true ↔ v.QueuedOnce src ∨ v.taken src = true
  once : v.Queued src → v.QueuedOnce src
  apart : v.QueuedOnce src → v.taken src = false

/-- The source is put into a queue. -/
def enqueue (v : Lines σ τ) (src : σ) (thr : τ) : Lines σ τ :=
  { v with
    out := update v.out src true
    queue := update v.queue thr (v.queue thr ++ [src]) }

/-- The source is marked, and not put into a queue. -/
def lose (v : Lines σ τ) (src : σ) : Lines σ τ := { v with out := update v.out src true }

/-- The thread takes the source, and `rest` stays in its queue. -/
def take (v : Lines σ τ) (src : σ) (thr : τ) (rest : List σ) : Lines σ τ :=
  { v with
    queue := update v.queue thr rest
    taken := update v.taken src true }

/-- The interrupt of the source is ended. -/
def finish (v : Lines σ τ) (src : σ) : Lines σ τ :=
  { v with
    out := update v.out src false
    taken := update v.taken src false }

theorem Good.congr {w : Lines σ τ} (hv : v.Good a) (hout : w.out a = v.out a)
    (hcounts : w.counts a = v.counts a) (htaken : w.taken a = v.taken a) : w.Good a := by
  obtain ⟨houtstanding, honce, hapart⟩ := hv
  constructor
  · rwa [hout, htaken, QueuedOnce, hcounts]
  · rwa [Queued, QueuedOnce, hcounts]
  · rwa [htaken, QueuedOnce, hcounts]

theorem QueuedOnce.queued (honce : v.QueuedOnce src) : v.Queued src := by
  obtain ⟨thr, hthr⟩ := honce
  refine ⟨thr, ?_⟩
  rw [hthr, Pi.single_eq_same]
  exact one_ne_zero

theorem good_of_idle (hout : v.out src = false) (hcounts : ¬ v.Queued src)
    (htaken : v.taken src = false) : v.Good src := by
  refine ⟨iff_of_false (by simp [hout]) ?_, fun h => absurd h hcounts, fun _ => htaken⟩
  rintro (honce | htaken')
  · exact hcounts honce.queued
  · rw [htaken] at htaken'
    cases htaken'

theorem counts_update {l : List σ} (hl : l.count a = (v.queue thr).count a) (out taken : σ → Bool) :
    counts ⟨out, update v.queue thr l, taken⟩ a = v.counts a := by
  funext t
  unfold counts
  by_cases ht : t = thr
  · subst ht
    dsimp only
    rw [update_self, hl]
  · dsimp only
    rw [update_of_ne ht]

theorem good_enqueue (hv : ∀ a, v.Good a) (hout : v.out src = false) (thr : τ) :
    ∀ a, (v.enqueue src thr).Good a := by
  have hidle := (hv src).outstanding.not.1 (by simp [hout])
  obtain ⟨hnotonce, htaken⟩ := not_or.1 hidle
  have hnone : v.counts src = 0 := not_queued_iff.1 fun hq => hnotonce ((hv src).once hq)
  intro a
  by_cases ha : a = src
  · subst ha
    have hsingle : (v.enqueue a thr).counts a = Pi.single thr 1 := by
      funext t
      have hzero : (v.queue t).count a = 0 := congrFun hnone t
      unfold counts enqueue
      dsimp only
      by_cases ht : t = thr
      · subst ht
        rw [update_self, count_append, hzero, count_singleton_self, Pi.single_eq_same]
      · rw [update_of_ne ht, hzero, Pi.single_eq_of_ne ht]
    have honce : (v.enqueue a thr).QueuedOnce a := ⟨thr, hsingle⟩
    refine ⟨iff_of_true (update_self ..) (.inl honce), fun _ => honce, fun _ => ?_⟩
    exact Bool.eq_false_of_not_eq_true htaken
  · refine (hv a).congr (update_of_ne ha _ _) (counts_update ?_ _ _) rfl
    rw [count_append, count_singleton, if_neg (by simpa using Ne.symm ha), add_zero]

theorem not_good_lose (hv : v.Good src) (hout : v.out src = false) : ¬ (v.lose src).Good src := by
  intro hlost
  have hidle := hv.outstanding.not.1 (by simp [hout])
  exact hidle (hlost.outstanding.1 (update_self ..))

theorem counts_take (hv : v.Good src) (hhead : v.queue thr = src :: rest) :
    v.QueuedOnce src ∧ (v.take src thr rest).counts src = 0 := by
  have hpos : v.counts src thr ≠ 0 := by
    rw [counts, hhead, count_cons_self]
    exact succ_ne_zero _
  have honce := hv.once ⟨thr, hpos⟩
  obtain ⟨thr', hthr'⟩ := id honce
  obtain rfl : thr = thr' := by
    by_contra hne
    rw [hthr', Pi.single_eq_of_ne hne] at hpos
    exact hpos rfl
  refine ⟨honce, funext fun t => ?_⟩
  have hcount : (v.queue t).count src = _ := congrFun hthr' t
  unfold counts take
  dsimp only
  by_cases ht : t = thr
  · subst ht
    rw [hhead, count_cons_self, Pi.single_eq_same] at hcount
    rw [update_self]
    exact succ.inj hcount
  · rw [Pi.single_eq_of_ne ht] at hcount
    rwa [update_of_ne ht]

theorem good_take (hv : ∀ a, v.Good a) (hhead : v.queue thr = src :: rest) :
    ∀ a, (v.take src thr rest).Good a := by
  obtain ⟨honce, hnone⟩ := counts_take (hv src) hhead
  intro a
  by_cases ha : a = src
  · subst ha
    have hnot : ¬ (v.take a thr rest).Queued a := not_queued_iff.2 hnone
    refine ⟨iff_of_true ((hv a).outstanding.2 (.inl honce)) (.inr (update_self ..)),
      fun h => absurd h hnot, fun h => absurd h.queued hnot⟩
  · refine (hv a).congr rfl (counts_update ?_ _ _) (update_of_ne ha _ _)
    rw [hhead, count_cons, if_neg (by simpa using Ne.symm ha), add_zero]

/-- Ending an interrupt keeps the sources in order exactly when the source is in no queue. -/
theorem good_finish_iff (hv : ∀ a, v.Good a) : (∀ a, (v.finish src).Good a) ↔ ¬ v.Queued src := by
  constructor
  · intro hgood hq
    have honce : (v.finish src).QueuedOnce src := (hv src).once hq
    have hout := (hgood src).outstanding.2 (.inl honce)
    have hclear : (v.finish src).out src = false := update_self ..
    rw [hclear] at hout
    cases hout
  · intro hnot a
    by_cases ha : a = src
    · subst ha
      exact good_of_idle (update_self ..) hnot (update_self ..)
    · exact (hv a).congr (update_of_ne ha _ _) rfl (update_of_ne ha _ _)

end Lines

/-! ### Numbers -/

theorem getLsbD_nibble {i : Nat} (hi : i < 32) : (0xf : BitVec 32).getLsbD i = decide (i < 4) := by
  revert i
  decide

theorem getLsbD_devId {i : Nat} (hi : i < 32) :
    (0xfffff : BitVec 32).getLsbD i = decide (i < 20) := by
  revert i
  decide

theorem encoded_class (a c : BitVec 32) :
    ((a &&& (0xfffff : Xirr)) ||| ((c &&& (0xf : Xirr)) <<< 20)) >>> 20 &&& 0xf = c &&& 0xf := by
  apply eq_of_getLsbD_eq
  intro i hi
  rw [getLsbD_and, getLsbD_ushiftRight, BitVec.getLsbD_or, getLsbD_and,
    getLsbD_shiftLeft, getLsbD_and, getLsbD_and, getLsbD_nibble hi]
  by_cases h4 : i < 4
  · have hin : 20 + i < 32 := by omega
    have hout : ¬ 20 + i < 20 := by omega
    rw [getLsbD_devId hin, Nat.add_sub_cancel_left, getLsbD_nibble hi]
    simp [hin, hout]
  · simp [h4]

theorem encoded_devId (a c : BitVec 32) :
    ((a &&& (0xfffff : Xirr)) ||| ((c &&& (0xf : Xirr)) <<< 20)) &&& 0xfffff = a &&& 0xfffff := by
  apply eq_of_getLsbD_eq
  intro i hi
  rw [getLsbD_and, BitVec.getLsbD_or, getLsbD_and, getLsbD_shiftLeft, getLsbD_devId hi]
  by_cases h20 : i < 20 <;> simp [h20]

theorem xirrClass_xirr (src : XirSource) : xirrClass src.xirr = src.cls := by
  obtain ⟨cls, dev⟩ := src
  show (xirrEncode dev cls >>> 20 &&& 0xf).toNat = cls
  rw [xirrEncode, encoded_class]
  revert cls
  decide

theorem xirrXisr_xirr (src : XirSource) : xirrXisr src.xirr = src.dev := by
  obtain ⟨cls, dev⟩ := src
  show (xirrEncode dev cls &&& 0xfffff).toNat = dev
  rw [xirrEncode, encoded_devId]
  clear cls
  revert dev
  decide +kernel

theorem xirrSource_xirr (src : XirSource) : xirrSource src.xirr = some src := by
  have hin : xirrClass src.xirr < xirrClassMax ∧ xirrXisr src.xirr < xirrDevidSz := by
    rw [xirrClass_xirr, xirrXisr_xirr]
    exact ⟨src.cls.isLt, src.dev.isLt⟩
  have hcls : (⟨xirrClass src.xirr, hin.1⟩ : Fin xirrClassMax) = src.cls :=
    Fin.ext (xirrClass_xirr src)
  have hdev : (⟨xirrXisr src.xirr, hin.2⟩ : Fin xirrDevidSz) = src.dev :=
    Fin.ext (xirrXisr_xirr src)
  rw [xirrSource, dif_pos hin, hcls, hdev]

/-! ### The ring -/

namespace XirQueue

variable {xq xq' : XirQueue} {x : Xirr} {slot : Nat}

/-- How many numbers the ring has. -/
def len (xq : XirQueue) : Nat :=
  (xq.xqTail.toNat + xirrDevidSz - xq.xqHead.toNat) % xirrDevidSz

/-- The numbers in the ring, oldest first. -/
def contents (xq : XirQueue) : List Xirr :=
  Slots.contents xirrDevidSz xq.xqList xq.xqHead.toNat (xq.xqHead.toNat + xq.len)

theorem length_contents (xq : XirQueue) : xq.contents.length = xq.len := by
  rw [contents, Slots.length_contents, Nat.add_sub_cancel_left]

theorem toNat_next {i : BitVec 16} (hi : i.toNat < xirrDevidSz) :
    (next i).toNat = (i.toNat + 1) % xirrDevidSz := by
  unfold next xirrDevidSz at *
  split_ifs with hend
  · have hlast : i.toNat + 1 = 0x100 := by omega
    rw [hlast]
    rfl
  · bv_omega

theorem head_add_len (xq : XirQueue) :
    (xq.xqHead.toNat + xq.len) % xirrDevidSz = xq.xqTail.toNat := by
  have hhead := xq.head_lt
  have htail := xq.tail_lt
  unfold len xirrDevidSz at *
  omega

theorem contents_of_pop_none (hx : xq.pop = none) : xq.contents = [] := by
  unfold pop at hx
  split_ifs at hx with heq
  have hlen : xq.len = 0 := by
    rw [len, heq, Nat.add_sub_cancel_left, Nat.mod_self]
  rw [← length_eq_zero_iff, length_contents, hlen]

theorem contents_of_pop (hx : xq.pop = some (x, xq')) : xq.contents = x :: xq'.contents := by
  unfold pop at hx
  split_ifs at hx with hne
  cases hx
  have hhead := xq.head_lt
  have htail := xq.tail_lt
  have hdiff : xq.xqHead.toNat ≠ xq.xqTail.toNat := fun h => hne (eq_of_toNat_eq h)
  have hpos : 0 < xq.len := by
    unfold len xirrDevidSz at *
    omega
  -- the head goes on by one, and there is one number less
  have hlen : (xq.xqTail.toNat + xirrDevidSz - (next xq.xqHead).toNat) % xirrDevidSz =
      xq.len - 1 := by
    rw [toNat_next hhead]
    unfold len xirrDevidSz at *
    omega
  have hfirst : xq.xqHead.toNat % xirrDevidSz = xq.xqHead.toNat := mod_eq_of_lt hhead
  have hsum : xq.xqHead.toNat + 1 + (xq.len - 1) = xq.xqHead.toNat + xq.len := by omega
  unfold contents
  rw [Slots.contents_pop (by omega), hfirst]
  congr 1
  dsimp only [len]
  rw [hlen, toNat_next hhead, Slots.contents_mod, hsum]
  rfl

theorem contents_of_add (hx : xq.add x = some (slot, xq')) : xq'.contents = xq.contents ++ [x] := by
  unfold add at hx
  split_ifs at hx with hne
  cases hx
  have hhead := xq.head_lt
  have htail := xq.tail_lt
  have hdiff : (next xq.xqTail).toNat ≠ xq.xqHead.toNat := fun h => hne (eq_of_toNat_eq h)
  have hlen : ((next xq.xqTail).toNat + xirrDevidSz - xq.xqHead.toNat) % xirrDevidSz =
      xq.len + 1 := by
    rw [toNat_next htail] at hdiff ⊢
    unfold len xirrDevidSz at *
    omega
  have hroom : xq.len < xirrDevidSz := mod_lt _ (by decide)
  show Slots.contents xirrDevidSz (update xq.xqList xq.xqTail.toNat x) xq.xqHead.toNat
    (xq.xqHead.toNat + ((next xq.xqTail).toNat + xirrDevidSz - xq.xqHead.toNat) % xirrDevidSz) =
      Slots.contents xirrDevidSz xq.xqList xq.xqHead.toNat (xq.xqHead.toNat + xq.len) ++ [x]
  rw [hlen, ← head_add_len xq]
  exact Slots.contents_push (Nat.le_add_right _ _) (Nat.add_lt_add_left hroom _) x

/-- A number is refused when the ring has 255 of them. -/
theorem add_eq_none_iff : xq.add x = none ↔ xq.contents.length = 255 := by
  have hhead := xq.head_lt
  have htail := xq.tail_lt
  have hnext := toNat_next htail
  have heq : next xq.xqTail = xq.xqHead ↔ xq.len = 255 := by
    rw [← toNat_inj]
    unfold len xirrDevidSz at *
    omega
  rw [length_contents, ← heq]
  unfold add
  split_ifs with hne
  · exact iff_of_false nofun hne
  · exact iff_of_true rfl (not_not.1 hne)

end XirQueue

/-! ### The system as lines -/

namespace XirSys

variable {τ : Type} {s t : XirSys τ} {src : XirSource} {xirr : Xirr} {f : BitVec 32}
  {c : Fin xirrClassMax} {thr : τ}

/-- The flags of a source, and 0 if its class has no data. -/
def flags (s : XirSys τ) (src : XirSource) : BitVec 32 :=
  match s.xcData src.cls with
  | none => 0
  | some xc => (xc src.dev).xhFlags

def out (s : XirSys τ) (src : XirSource) : Bool := decide (s.flags src &&& xirrOutstanding ≠ 0)

/-- The sources in the ring of a thread. -/
def queue (s : XirSys τ) (thr : τ) : List XirSource := (s.xirq thr).contents.filterMap xirrSource

section

variable (hdata : (s.xcData src.cls).isSome = true)
include hdata

theorem flags_setFlags : (s.setFlags src f).flags = update s.flags src f := by
  obtain ⟨xc, hxc⟩ := Option.isSome_iff_exists.1 hdata
  funext a
  unfold flags setFlags
  dsimp only
  by_cases hcls : a.cls = src.cls
  · rw [hcls, update_self, hxc]
    dsimp only [Option.map_some]
    by_cases hdev : a.dev = src.dev
    · obtain rfl : a = src := by
        cases a
        cases src
        exact congrArg₂ XirSource.mk hcls hdev
      rw [update_self, update_self]
    · have hne : a ≠ src := fun h => hdev (congrArg XirSource.dev h)
      rw [update_of_ne hdev, update_of_ne hne, hcls, hxc]
  · have hne : a ≠ src := fun h => hcls (congrArg XirSource.cls h)
    rw [update_of_ne hcls, update_of_ne hne]

theorem out_setFlags :
    (s.setFlags src f).out = update s.out src (decide (f &&& xirrOutstanding ≠ 0)) := by
  unfold out
  rw [flags_setFlags hdata]
  exact comp_update (fun x : BitVec 32 => decide (x &&& xirrOutstanding ≠ 0)) s.flags src f

theorem out_setFlags_same
    (hbit : f.getLsbD 2 = (s.flags src).getLsbD 2) : (s.setFlags src f).out = s.out := by
  rw [out_setFlags hdata]
  refine update_eq_self_iff.2 ?_
  unfold out
  rw [decide_eq_decide, isFlag_xirrOutstanding.and_ne_zero_iff,
    isFlag_xirrOutstanding.and_ne_zero_iff, hbit]

end

theorem classOf_eq_ok (hx : classOf xirr = .ok c) : xirrClass xirr = c := by
  unfold classOf at hx
  split_ifs at hx
  cases hx
  rfl

theorem xirrSource_eq (hc : xirrClass xirr = c)
    (hdev : xirrXisr xirr < xirrDevidSz) : xirrSource xirr = some ⟨c, ⟨_, hdev⟩⟩ := by
  have hcls : xirrClass xirr < xirrClassMax := hc ▸ c.isLt
  have hsame : (⟨xirrClass xirr, hcls⟩ : Fin xirrClassMax) = c := Fin.ext hc
  rw [xirrSource, dif_pos ⟨hcls, hdev⟩, hsame]

theorem getXhData_eq {xd : XhData τ} (hx : s.getXhData xirr = .ok (some (src, xd))) :
    (s.xcData src.cls).isSome = true ∧ s.flags src = xd.xhFlags ∧ classOf xirr = .ok src.cls ∧
      xirrSource xirr = some src := by
  obtain ⟨c, hc, hx⟩ := of_seq hx
  rcases hxc : s.xcData c with _ | xc
  · rw [hxc] at hx
    cases hx
  rw [hxc, Except.ok.injEq] at hx
  split_ifs at hx with hdev
  cases hx
  rw [flags, hxc]
  exact ⟨rfl, rfl, hc, xirrSource_eq (classOf_eq_ok hc) hdev⟩

/-- `xir_eoi` clears the flag of the source. -/
theorem eoi_eq (hx : s.eoi xirr = .ok t) :
    ∃ src, xirrSource xirr = some src ∧ (s.xcData src.cls).isSome = true ∧
      t = s.setFlags src (s.flags src &&& ~~~xirrOutstanding) := by
  obtain ⟨c, hc, hx⟩ := of_seq hx
  split_ifs at hx with hdev
  obtain ⟨xc, hxc, hx⟩ := of_seq hx
  cases hx
  rw [nonNull_ok] at hxc
  refine ⟨_, xirrSource_eq (classOf_eq_ok hc) hdev, by rw [hxc]; rfl, ?_⟩
  rw [flags, hxc]

theorem eoi_cases (hx : s.eoi xirr = .ok t) :
    ∃ src, xirrSource xirr = some src ∧ t.out = update s.out src false ∧ t.xirq = s.xirq := by
  obtain ⟨src, hsrc, hdata, rfl⟩ := eoi_eq hx
  refine ⟨src, hsrc, ?_, rfl⟩
  rw [out_setFlags hdata]
  congr 1
  rw [decide_eq_false_iff_not, isFlag_xirrOutstanding.and_ne_zero_iff,
    isFlag_xirrOutstanding.getLsbD_and_not (by decide)]
  simp

/-- A source whose interrupts go to the thread, with the ring of the thread as a list. -/
def view (s : XirSys τ) (src : XirSource) (thr : τ) : Xir :=
  ⟨s.flags src, true, (s.xirq thr).contents⟩

theorem view_setFlags (hdata : (s.xcData src.cls).isSome = true) :
    (s.setFlags src f).view src thr = { s.view src thr with xhFlags := f } := by
  unfold view
  rw [flags_setFlags hdata, update_self]
  rfl

theorem eoi_view (hx : s.eoi src.xirr = .ok t) : t.view src thr = xirEoi (s.view src thr) := by
  obtain ⟨a, ha, hdata, rfl⟩ := eoi_eq hx
  rw [xirrSource_xirr, Option.some_inj] at ha
  subst ha
  exact view_setFlags hdata

theorem hEoi_cases {osOf : τ → OsId} {ret : Sval} (hx : s.hEoi osOf thr xirr = .ok (ret, t)) :
    ret = hPermission ∧ t = s ∨ ret = hSuccess ∧ ∃ src, xirrSource xirr = some src ∧
      t.out = update s.out src false ∧ t.xirq = s.xirq := by
  obtain ⟨c, -, hx⟩ := of_seq hx
  obtain ⟨th, -, hx⟩ := of_seq hx
  split_ifs at hx
  · obtain ⟨u, heoi, hx⟩ := of_seq hx
    cases hx
    exact .inr ⟨rfl, eoi_cases heoi⟩
  · cases hx
    exact .inl ⟨rfl, rfl⟩
  · obtain ⟨u, heoi, hx⟩ := of_seq hx
    cases hx
    exact .inr ⟨rfl, eoi_cases heoi⟩

/-- The thread may end the interrupt of the source: it is one of its partition, or its class has an
operation for that. -/
def MayEnd (osOf : τ → OsId) (s : XirSys τ) (thr : τ) (val : Xirr) (src : XirSource) : Prop :=
  ∃ xd, s.getXhData val = .ok (some (src, xd)) ∧ (s.eoiFn src.cls = true ∨
    xd.xhFlags &&& xirrDataThr ≠ 0 ∧ xd.xhData.map osOf = some (osOf thr))

theorem eoi_ok_iff : (∃ t, s.eoi xirr = .ok t) ↔ ∃ x, s.getXhData xirr = .ok (some x) := by
  unfold eoi getXhData
  rcases classOf xirr with _ | c
  · simp [error_bind]
  rw [ok_bind, ok_bind]
  by_cases hdev : xirrXisr xirr < xirrDevidSz <;> cases s.xcData c <;> simp [hdev, nonNull]

theorem hEoi_success_iff {osOf : τ → OsId} :
    (∃ t, s.hEoi osOf thr xirr = .ok (hSuccess, t)) ∧ xirrSource xirr = some src ↔
      s.MayEnd osOf thr xirr src := by
  unfold MayEnd hEoi getThread
  rcases hget : s.getXhData xirr with e | _ | ⟨src', xd⟩
  · rcases classOf xirr with _ | _ <;> simp [error_bind, ok_bind]
  · have hno : ∀ t, s.eoi xirr ≠ .ok t := fun t ht => by simpa [hget] using eoi_ok_iff.1 ⟨t, ht⟩
    rcases classOf xirr with _ | c
    · simp [error_bind]
    rcases heoi : s.eoi xirr with _ | u
    · cases hfn : s.eoiFn c <;> simp [hfn, ok_bind, error_bind, hSuccess, hPermission]
    · exact absurd heoi (hno u)
  · obtain ⟨-, -, hc, hsrc⟩ := getXhData_eq hget
    obtain ⟨u, hu⟩ := eoi_ok_iff.2 ⟨_, hget⟩
    by_cases heq : src' = src
    swap
    · simp [hsrc, heq]
    subst heq
    cases hfn : s.eoiFn src'.cls
    · simp only [hc, ok_bind, hu, hsrc, hfn, Option.bind_some, Bool.false_eq_true, if_false,
        false_or, and_true, Except.ok.injEq, Option.some.injEq, Prod.mk.injEq, true_and,
        exists_eq_left']
      by_cases hthr : xd.xhFlags &&& xirrDataThr ≠ 0
      · rw [if_pos hthr]
        split_ifs with hos
        · exact iff_of_false (by rintro ⟨_, ⟨⟩⟩) fun h => hos h.2
        · exact iff_of_true ⟨u, rfl⟩ ⟨hthr, not_not.1 hos⟩
      · rw [if_neg hthr, if_pos (by simp)]
        exact iff_of_false (by rintro ⟨_, ⟨⟩⟩) fun h => hthr h.1
    · simp [hc, ok_bind, hu, hsrc, hfn]

variable [DecidableEq τ] {r : Int}

theorem queue_update (s : XirSys τ) (thr : τ) (xq : XirQueue) :
    queue { s with xirq := update s.xirq thr xq } =
      update s.queue thr (xq.contents.filterMap xirrSource) :=
  comp_update (fun xq : XirQueue => xq.contents.filterMap xirrSource) s.xirq thr xq

/-- A source that is raised: nothing happens to the lines, or it is put into a queue, or there is no
room for it and the result is -1. -/
inductive Raised (s t : XirSys τ) (r : Int) : Prop
  | quiet (hr : r ≠ -1) (hout : t.out = s.out) (hqueue : t.queue = s.queue)
  | enqueued (src : XirSource) (thr : τ) (hr : r ≠ -1) (hfree : s.out src = false)
      (hout : t.out = update s.out src true)
      (hqueue : t.queue = update s.queue thr (s.queue thr ++ [src]))
  | lost (src : XirSource) (hr : r = -1) (hfree : s.out src = false)
      (hout : t.out = update s.out src true) (hqueue : t.queue = s.queue)

theorem enqueue_raised {thr : Option τ} (hdata : (s.xcData src.cls).isSome = true)
    (hx : s.enqueue src (s.flags src) thr = .ok (r, t)) : Raised s t r := by
  unfold enqueue at hx
  split_ifs at hx with hout
  · cases hx
    exact .quiet (by decide) rfl rfl
  have hfree : s.out src = false := decide_eq_false hout
  obtain ⟨th, -, hx⟩ := of_seq hx
  have hset : (s.setFlags src ((s.flags src ||| xirrOutstanding) &&& ~~~xirrPending)).out =
      update s.out src true := by
    rw [out_setFlags hdata]
    congr 1
    rw [decide_eq_true_iff, isFlag_xirrOutstanding.and_ne_zero_iff,
      isFlag_xirrPending.getLsbD_and_not (by decide),
      isFlag_xirrOutstanding.getLsbD_or (by decide)]
    simp
  cases hadd : ((s.setFlags src ((s.flags src ||| xirrOutstanding) &&& ~~~xirrPending)).xirq th).add
      src.xirr with
  | none =>
    rw [hadd] at hx
    cases hx
    exact .lost src rfl hfree hset rfl
  | some x =>
    rw [hadd] at hx
    cases hx
    refine .enqueued src th (by omega) hfree hset ?_
    rw [queue_update, XirQueue.contents_of_add hadd, filterMap_append, filterMap_cons,
      xirrSource_xirr]
    rfl

theorem inject_raised {eicDefault : Option τ}
    (hx : s.inject eicDefault xirr = .ok (r, t)) : Raised s t r := by
  obtain ⟨found, hget, hx⟩ := of_seq hx
  obtain ⟨⟨src, xd⟩, hfound, hx⟩ := of_seq hx
  rw [nonNull_ok] at hfound
  rw [hfound] at hget
  obtain ⟨hdata, hflags, -⟩ := getXhData_eq hget
  dsimp only at hx
  rw [← hflags] at hx
  split_ifs at hx with hdisabled
  · cases hx
    refine .quiet (by decide) (out_setFlags_same hdata ?_) rfl
    rw [isFlag_xirrPending.getLsbD_or (by decide)]
    simp
  rcases hhandler : xd.xhHandler with _ | h
  · rw [hhandler] at hx
    cases hx
    exact .quiet (by decide) rfl rfl
  rw [hhandler] at hx
  cases h with
  | xirRaise => exact enqueue_raised hdata hx
  | openpicIntr =>
    obtain ⟨-, -, hx⟩ := of_seq hx
    exact enqueue_raised hdata hx

/-- The thread into whose ring the number goes when it is raised: the source is enabled and idle. -/
def ringOf (eicDefault : Option τ) (s : XirSys τ) (xirr : Xirr) : Option τ :=
  match s.getXhData xirr with
  | .ok (some (_, xd)) =>
    if xd.xhFlags &&& xirrDisabled ≠ 0 ∨ xd.xhFlags &&& xirrOutstanding ≠ 0 then none
    else match xd.xhHandler with
      | none => none
      | some .xirRaise => xd.xhData
      | some .openpicIntr => eicDefault
  | _ => none

theorem enqueue_refused_iff {o : Option τ} : (∃ t, s.enqueue src f o = .ok (-1, t)) ↔
    f &&& xirrOutstanding = 0 ∧ ∃ thr, o = some thr ∧ (s.xirq thr).contents.length = 255 := by
  unfold enqueue
  split_ifs with hout
  · exact iff_of_false (by rintro ⟨_, ⟨⟩⟩) fun h => hout h.1
  have hout : f &&& xirrOutstanding = 0 := by simpa using hout
  cases o with
  | none => exact iff_of_false (by rintro ⟨_, ⟨⟩⟩) (by rintro ⟨_, _, ⟨⟩, _⟩)
  | some thr =>
    have hfull := @XirQueue.add_eq_none_iff (s.xirq thr) src.xirr
    have hring : (s.setFlags src ((f ||| xirrOutstanding) &&& ~~~xirrPending)).xirq thr =
        s.xirq thr := rfl
    simp only [nonNull, ok_bind, hring, hout, true_and, Option.some.injEq, exists_eq_left', ← hfull]
    cases (s.xirq thr).add src.xirr with
    | none => exact iff_of_true ⟨_, rfl⟩ rfl
    | some x =>
      refine iff_of_false ?_ (by rintro ⟨⟩)
      rintro ⟨t, ht⟩
      simp at ht

/-- A raise fails when the ring is full. -/
theorem inject_refused_iff {eicDefault : Option τ} : (∃ t, s.inject eicDefault xirr = .ok (-1, t)) ↔
    ∃ thr, s.ringOf eicDefault xirr = some thr ∧ (s.xirq thr).contents.length = 255 := by
  unfold inject ringOf
  rcases s.getXhData xirr with e | _ | ⟨src, xd⟩
  · exact iff_of_false (by rintro ⟨_, ⟨⟩⟩) (by rintro ⟨_, ⟨⟩, _⟩)
  · exact iff_of_false (by rintro ⟨_, ⟨⟩⟩) (by rintro ⟨_, ⟨⟩, _⟩)
  simp only [ok_bind, nonNull]
  by_cases hdis : xd.xhFlags &&& xirrDisabled = 0
  swap
  · rw [if_pos hdis, if_pos (.inl hdis)]
    exact iff_of_false (by rintro ⟨_, ⟨⟩⟩) (by rintro ⟨_, ⟨⟩, _⟩)
  rw [if_neg (not_not_intro hdis)]
  rcases xd.xhHandler with _ | _ | _
  · exact iff_of_false (by rintro ⟨_, ⟨⟩⟩) (by simp)
  · simp only [enqueue_refused_iff, hdis]
    grind
  · cases eicDefault with
    | none => exact iff_of_false (by rintro ⟨_, ⟨⟩⟩) (by simp)
    | some thr =>
      simp [hassert, enqueue_refused_iff, hdis]

/-- `h_xirr` of a ring with a number: what is left of it, and whether the interrupt is ended. -/
theorem hXirr_cases {x : Xirr} {xq : XirQueue} {r : Xirr}
    (hpop : (s.xirq thr).pop = some (x, xq)) (hx : s.hXirr thr = .ok (r, t)) :
    t.queue = update s.queue thr (xq.contents.filterMap xirrSource) ∧
    (xirrClass x ≠ xirrClassHwdev ∧ t.out = s.out ∨
      xirrClass x = xirrClassHwdev ∧ ∃ src, xirrSource x = some src ∧
        t.out = update s.out src false) := by
  rw [hXirr, hpop] at hx
  obtain ⟨c, hc, hx⟩ := of_seq hx
  have hclass := classOf_eq_ok hc
  split_ifs at hx with hhw hfn
  · obtain ⟨u, heoi, hx⟩ := of_seq hx
    cases hx
    obtain ⟨src, hsrc, hout, hxirq⟩ := eoi_cases heoi
    refine ⟨?_, .inr ⟨hclass.trans (congrArg Fin.val hhw), src, hsrc, hout⟩⟩
    rw [← queue_update]
    unfold queue
    rw [hxirq]
  · cases hx
    refine ⟨queue_update s thr xq, .inl ⟨fun h => hhw (Fin.ext (hclass.symm.trans h)), rfl⟩⟩

/-! ### One source with the list of its thread -/

theorem view_update (s : XirSys τ) (src : XirSource) (thr : τ) (xq : XirQueue) :
    view { s with xirq := update s.xirq thr xq } src thr =
      { s.view src thr with xirq := xq.contents } := by
  show (⟨s.flags src, true, (update s.xirq thr xq thr).contents⟩ : Xir) = _
  rw [update_self]
  rfl

theorem xirAdd_contents (xq : XirQueue) (x : Xirr) :
    xirAdd xq.contents x = (xq.add x).map fun y => y.2.contents := by
  have hlt : xq.contents.length < 256 := by
    rw [XirQueue.length_contents]
    exact mod_lt _ (by decide)
  have hfull := @XirQueue.add_eq_none_iff xq x
  rw [xirAdd, xirrDevidSz]
  rcases hadd : xq.add x with _ | y
  · have hlen := hfull.1 hadd
    rw [if_neg (by omega), Option.map_none]
  · have hlen : xq.contents.length ≠ 255 := fun h => by cases hadd.symm.trans (hfull.2 h)
    rw [if_pos (by omega), Option.map_some, XirQueue.contents_of_add hadd]

/-- **A raise is one of the list**, with the same result up to the slot. -/
theorem inject_view {eicDefault : Option τ} {xd : XhData τ}
    (hget : s.getXhData xirr = .ok (some (src, xd))) (hhandler : xd.xhHandler = some .xirRaise)
    (hthr : xd.xhData = some thr) (hx : s.inject eicDefault xirr = .ok (r, t)) :
    (xirInject (s.view src thr) src.xirr).2 = t.view src thr ∧
      (0 ≤ (xirInject (s.view src thr) src.xirr).1 ↔ 0 ≤ r) := by
  obtain ⟨hdata, hflags, -⟩ := getXhData_eq hget
  simp only [inject, hget, ok_bind, nonNull, hhandler, hthr, ← hflags] at hx
  have hview : (s.view src thr).xhFlags = s.flags src := rfl
  unfold xirInject xirEnqueue
  rw [hview, if_pos (show (s.view src thr).xhHandler = true from rfl)]
  by_cases hdis : s.flags src &&& xirrDisabled ≠ 0
  · rw [if_pos hdis] at hx ⊢
    cases hx
    exact ⟨(view_setFlags hdata).symm, Iff.rfl⟩
  rw [if_neg hdis] at hx ⊢
  unfold enqueue at hx
  by_cases hout : s.flags src &&& xirrOutstanding ≠ 0
  · rw [if_pos hout] at hx ⊢
    cases hx
    exact ⟨rfl, Iff.rfl⟩
  rw [if_neg hout] at hx ⊢
  simp only [nonNull, ok_bind] at hx
  dsimp only
  rw [show (s.view src thr).xirq = (s.xirq thr).contents from rfl, xirAdd_contents]
  rcases hslot : (s.xirq thr).add src.xirr with _ | ⟨slot, xq⟩
  · rw [show (s.setFlags src _).xirq = s.xirq from rfl, hslot] at hx
    cases hx
    exact ⟨(view_setFlags hdata).symm, Iff.rfl⟩
  · rw [show (s.setFlags src _).xirq = s.xirq from rfl, hslot] at hx
    cases hx
    have hview := view_update
      (s.setFlags src ((s.flags src ||| xirrOutstanding) &&& ~~~xirrPending)) src thr xq
    rw [view_setFlags hdata] at hview
    exact ⟨hview.symm, iff_of_true le_rfl (Int.natCast_nonneg _)⟩

/-- A number of a class of its own that is taken is the first one of the list. -/
theorem hXirr_view {x : Xirr} (hsoft : ∀ y ∈ (s.xirq thr).contents, xirrClass y ≠ xirrClassHwdev)
    (hx : s.hXirr thr = .ok (x, t)) :
    Rhype.hXirr (s.view src thr) = (x, t.view src thr) := by
  rcases hpop : (s.xirq thr).pop with _ | ⟨y, xq⟩
  · rw [hXirr, hpop] at hx
    cases hx
    exact hXirr_nil (XirQueue.contents_of_pop_none hpop)
  have hcontents := XirQueue.contents_of_pop hpop
  rw [hXirr, hpop] at hx
  obtain ⟨c, hc, hx⟩ := of_seq hx
  have hne : c ≠ xirrClassHwdev := fun h =>
    hsoft y (by rw [hcontents]; exact mem_cons_self) ((classOf_eq_ok hc).trans (congrArg _ h))
  rw [if_neg hne] at hx
  cases hx
  rw [hXirr_cons hcontents, view_update]

end XirSys

/-! ### Sequences of raises and calls -/

/-- The system, and the sources that were taken and not ended. -/
structure XirWorld (τ : Type) where
  sys : XirSys τ
  taken : XirSource → Bool

/-- What happens: an interrupt is raised, or a thread calls `H_XIRR` or `H_EOI`. -/
inductive XirAct (τ : Type)
  | raise (xirr : Xirr)
  | take (thr : τ)
  | eoi (thr : τ) (val : Xirr)

section

variable {τ : Type} [DecidableEq τ] (osOf : τ → OsId) (eicDefault : Option τ)

/-- The sources taken after `H_XIRR`; an interrupt of the hardware is ended at once. -/
def XirWorld.takenBy (w : XirWorld τ) (thr : τ) : XirSource → Bool :=
  match (w.sys.xirq thr).pop.bind fun x => xirrSource x.1 with
  | none => w.taken
  | some src => update w.taken src (decide (src.cls ≠ xirrClassHwdev))

/-- The sources taken after `H_EOI` with this result. -/
def XirWorld.endedBy (w : XirWorld τ) (ret : Sval) (val : Xirr) : XirSource → Bool :=
  match if ret = hSuccess then xirrSource val else none with
  | none => w.taken
  | some src => update w.taken src false

def xirStep (w : XirWorld τ) : XirAct τ → Hv (XirWorld τ)
  | .raise xirr => do
    let (_, s) ← w.sys.inject eicDefault xirr
    .ok { w with sys := s }
  | .take thr => do
    let (_, s) ← w.sys.hXirr thr
    .ok ⟨s, w.takenBy thr⟩
  | .eoi thr val => do
    let (ret, s) ← w.sys.hEoi osOf thr val
    .ok ⟨s, w.endedBy ret val⟩

/-- The system as lines. -/
def XirWorld.lines (w : XirWorld τ) : Lines XirSource τ := ⟨w.sys.out, w.sys.queue, w.taken⟩

/-- All the sources are in order. -/
def XirWorld.Good (w : XirWorld τ) : Prop := ∀ src, w.lines.Good src

/-- A raise finds room in the ring, and the source whose interrupt is ended is not in a ring. -/
def XirOk (w : XirWorld τ) : XirAct τ → Prop
  | .raise xirr => ∀ thr, w.sys.ringOf eicDefault xirr = some thr →
      (w.sys.xirq thr).contents.length ≠ 255
  | .take _ => True
  | .eoi thr val => ∀ src, w.sys.MayEnd osOf thr val src → ¬ w.lines.Queued src

variable {osOf eicDefault} {w t : XirWorld τ} {s : XirSys τ} {thr : τ}

theorem good_raise_iff (hw : w.Good) {xirr : Xirr} {r : Int}
    (hx : w.sys.inject eicDefault xirr = .ok (r, s)) :
    XirWorld.Good { w with sys := s } ↔ r ≠ -1 := by
  cases inject_raised hx with
  | quiet hr hout hqueue =>
    refine iff_of_true (fun src => ?_) hr
    show Lines.Good ⟨s.out, s.queue, w.taken⟩ src
    rw [hout, hqueue]
    exact hw src
  | enqueued src thr hr hfree hout hqueue =>
    refine iff_of_true (fun a => ?_) hr
    show Lines.Good ⟨s.out, s.queue, w.taken⟩ a
    rw [hout, hqueue]
    exact Lines.good_enqueue hw hfree thr a
  | lost src hr hfree hout hqueue =>
    refine iff_of_false (fun hgood => ?_) (not_not_intro hr)
    have hlost : Lines.Good ⟨s.out, s.queue, w.taken⟩ src := hgood src
    rw [hout, hqueue] at hlost
    exact Lines.not_good_lose (hw src) hfree hlost

theorem good_take_step (hw : w.Good) {r : Xirr}
    (hx : w.sys.hXirr thr = .ok (r, s)) : XirWorld.Good ⟨s, w.takenBy thr⟩ := by
  rcases hpop : (w.sys.xirq thr).pop with _ | y
  · rw [XirSys.hXirr, hpop] at hx
    cases hx
    rwa [XirWorld.takenBy, hpop]
  obtain ⟨x, xq⟩ := y
  obtain ⟨hqueue, hcases⟩ := hXirr_cases hpop hx
  have hcontents := XirQueue.contents_of_pop hpop
  have hring : w.sys.queue thr = (x :: xq.contents).filterMap xirrSource := by
    rw [XirSys.queue, hcontents]
  intro a
  show Lines.Good ⟨s.out, s.queue, w.takenBy thr⟩ a
  rw [XirWorld.takenBy, hpop, hqueue]
  dsimp only [Option.bind_some]
  rw [filterMap_cons] at hring
  rcases hsrc : xirrSource x with _ | src
  · -- not the number of a source, so the lines do not change
    rw [hsrc] at hring hcases
    obtain ⟨-, hout⟩ := hcases.resolve_right fun h => by
      obtain ⟨-, src, hsome, -⟩ := h
      cases hsome
    dsimp only at hring ⊢
    rw [← hring, update_eq_self, hout]
    exact hw a
  rw [hsrc] at hring hcases
  dsimp only at hring ⊢
  have hcls : xirrClass x = src.cls := by
    unfold xirrSource at hsrc
    split_ifs at hsrc
    cases hsrc
    rfl
  have htake := Lines.good_take hw hring
  rcases hcases with ⟨hclass, hout⟩ | ⟨hclass, src', hsome, hout⟩
  · have hne : src.cls ≠ xirrClassHwdev := fun h => hclass (hcls.trans (congrArg Fin.val h))
    rw [hout, decide_eq_true hne]
    exact htake a
  cases hsome
  have heq : src.cls = xirrClassHwdev := Fin.ext (hcls.symm.trans hclass)
  have hnone := (Lines.counts_take (hw src) hring).2
  have hfinish := (Lines.good_finish_iff htake).2 (Lines.not_queued_iff.2 hnone) a
  rw [hout, decide_eq_false (not_not_intro heq)]
  unfold Lines.finish Lines.take at hfinish
  rwa [update_idem] at hfinish

theorem good_eoi_iff (hw : w.Good) {val : Xirr} {ret : Sval}
    (hx : w.sys.hEoi osOf thr val = .ok (ret, s)) :
    XirWorld.Good ⟨s, w.endedBy ret val⟩ ↔
      ∀ src, ret = hSuccess → xirrSource val = some src → ¬ w.lines.Queued src := by
  rcases hEoi_cases hx with ⟨rfl, rfl⟩ | ⟨rfl, src, hsrc, hout, hxirq⟩
  · exact iff_of_true hw nofun
  have hqueue : s.queue = w.sys.queue := by
    unfold XirSys.queue
    rw [hxirq]
  have hlines : XirWorld.lines ⟨s, w.endedBy hSuccess val⟩ = w.lines.finish src := by
    unfold XirWorld.lines XirWorld.endedBy Lines.finish
    rw [if_pos rfl, hsrc, hout, hqueue]
  rw [XirWorld.Good, hlines, Lines.good_finish_iff hw]
  constructor
  · intro hnot a _ ha
    cases hsrc.symm.trans ha
    exact hnot
  · exact fun hnot => hnot src rfl hsrc

/-- The step lemma: the sources stay in order exactly when the condition is met. -/
theorem good_step_iff (hw : w.Good) (a : XirAct τ) :
    (∀ t, xirStep osOf eicDefault w a = .ok t → t.Good) ↔ XirOk osOf eicDefault w a := by
  cases a with
  | raise xirr =>
    constructor
    · intro hkeep thr hring hfull
      obtain ⟨s, hx⟩ := inject_refused_iff.2 ⟨thr, hring, hfull⟩
      have hstep : xirStep osOf eicDefault w (.raise xirr) = .ok { w with sys := s } := by
        rw [xirStep, hx, ok_bind]
      exact (good_raise_iff hw hx).1 (hkeep _ hstep) rfl
    · intro hok t ht
      obtain ⟨⟨r, s⟩, hx, ht⟩ := of_seq ht
      cases ht
      refine (good_raise_iff hw hx).2 fun hr => ?_
      rw [hr] at hx
      obtain ⟨thr, hring, hfull⟩ := inject_refused_iff.1 ⟨s, hx⟩
      exact hok thr hring hfull
  | take thr =>
    refine iff_of_true (fun t ht => ?_) trivial
    obtain ⟨⟨r, s⟩, hx, ht⟩ := of_seq ht
    cases ht
    exact good_take_step hw hx
  | eoi thr val =>
    constructor
    · intro hkeep src hmay
      obtain ⟨⟨s, hx⟩, hsrc⟩ := hEoi_success_iff.2 hmay
      have hstep : xirStep osOf eicDefault w (.eoi thr val) =
          .ok ⟨s, w.endedBy hSuccess val⟩ := by
        rw [xirStep, hx, ok_bind]
      exact (good_eoi_iff hw hx).1 (hkeep _ hstep) src rfl hsrc
    · intro hok t ht
      obtain ⟨⟨ret, s⟩, hx, ht⟩ := of_seq ht
      cases ht
      refine (good_eoi_iff hw hx).2 fun src hret hsrc => ?_
      rw [hret] at hx
      exact hok src (hEoi_success_iff.1 ⟨⟨s, hx⟩, hsrc⟩)

end

/-- **Outstanding sources**: along a sequence of raises, `H_XIRR` and `H_EOI`, a source is
outstanding exactly when it is either in one ring, once, or taken and not ended, and no source is in
a ring twice, in all states, exactly when no raise finds a full ring and no call ends the interrupt
of a source that is still in a ring. -/
theorem sources_good_iff {τ : Type} [DecidableEq τ] (osOf : τ → OsId) (eicDefault : Option τ)
    (w : XirWorld τ) (acts : List (XirAct τ)) (hw : w.Good) :
    AlongStates (xirStep osOf eicDefault) XirWorld.Good w acts ↔
      AlongSteps (xirStep osOf eicDefault) (XirOk osOf eicDefault) w acts :=
  alongStates_iff (I := fun _ => True) (fun _ _ _ _ _ => trivial)
    (fun _ a _ hw => good_step_iff hw a) trivial hw

/-! ### A partition with one source -/

/-- Source 0 of class 1; its interrupts go to the thread `false`, of partition 0. -/
def lanXirSys : XirSys Bool where
  xcData c := if c = 1 then some fun d =>
      if d = 0 then ⟨xirrDataThr, some .xirRaise, some false⟩ else ⟨0, none, none⟩
    else none
  eoiFn _ := false
  xirq _ := ⟨0, 0, fun _ => 0, by decide, by decide⟩

theorem lanXirSys_good : XirWorld.Good ⟨lanXirSys, fun _ => false⟩ := by
  intro src
  refine Lines.good_of_idle (decide_eq_false ?_) ?_ rfl
  · unfold flags lanXirSys
    dsimp only
    split_ifs with hcls
    · dsimp only
      split_ifs <;> decide
    · exact (by decide : ¬ (0 : BitVec 32) &&& xirrOutstanding ≠ 0)
  · rintro ⟨thr, hthr⟩
    have hempty : (lanXirSys.xirq thr).contents = [] := XirQueue.contents_of_pop_none rfl
    have hqueue : lanXirSys.queue thr = [] := by
      rw [XirSys.queue, hempty, filterMap_nil]
    apply hthr
    show (lanXirSys.queue thr).count src = 0
    rw [hqueue, count_nil]

/-- `sources_good_iff` for an interrupt that is raised and taken. -/
theorem sources_good_iff_lanXirSys :
    AlongStates (xirStep Bool.toNat none) XirWorld.Good ⟨lanXirSys, fun _ => false⟩
      [.raise 0x100000, .take false] := by
  refine (sources_good_iff Bool.toNat none _ _ lanXirSys_good).2 ⟨fun thr _ => ?_, ?_⟩
  · have hempty : (lanXirSys.xirq thr).contents = [] := XirQueue.contents_of_pop_none rfl
    exact fun hfull => nomatch (congrArg List.length hempty).symm.trans hfull
  · exact fun _ _ => ⟨trivial, fun _ _ => trivial⟩

/-- The interrupt is raised, ended without being taken, and raised again: the source is in the ring
twice. -/
theorem source_queued_twice :
    (do
      let w ← [.raise 0x100000, .eoi false 0x100000, .raise 0x100000].foldlM
        (xirStep Bool.toNat none) ⟨lanXirSys, fun _ => false⟩
      .ok ((w.sys.xirq false).contents, w.sys.out ⟨1, 0⟩)) =
      (.ok ([0x100000, 0x100000], true) : Hv _) := by
  decide

end Rhype
