import Rhype.Logical.Equiv.Place
import Rhype.Logical.Info
import Mathlib.Data.List.GetD

/-!
# What `logical_fill_partition_info` reports

The chunks of a table in the order of their slots are `mappedRanges`, and what should be reported is
the first five of their ranges, with adjacent ones merged.  `fillLoop_eq` says what the loop does:
it never merges the second range with the first one, it ends with the fifth entry, and it reads one
slot too many when it comes to a chunk that has the last slot.
-/

namespace Rhype

open Function Range

/-! ### The mapped ranges -/

/-- The range of the chunk whose first slot is `i`. -/
def rangeAt (h : Hype) (os : Os) (i : Nat) : Option MemRange :=
  match os.pLci i with
  | none => none
  | some c =>
    if i = 0 ∨ os.pLci (i - 1) ≠ some c then
      (h.lci c).map fun lci => ⟨lci.lciLaddr, lci.lciSize⟩
    else none

/-- The ranges of the chunks that start at slot `i` or later, in the order of their slots. -/
def rangesFrom (h : Hype) (os : Os) (i : Nat) : List MemRange :=
  (List.range' i (maxLogicalMemChunks - i)).filterMap (rangeAt h os)

/-- The ranges of the chunks of the partition, in the order of their slots. -/
def mappedRanges (h : Hype) (os : Os) : List MemRange := rangesFrom h os 0

/-- Each chunk of the table is a range of addresses, and has the slots of the range. -/
def ChunksPlaced (h : Hype) (os : Os) : Prop :=
  ∀ i c, os.pLci i = some c → i < maxLogicalMemChunks ∧
    ∃ lci, h.lci c = some lci ∧ 0 < lci.lciSize.toNat ∧ HasRun os c lci

section

variable {h : Hype} {os : Os} {i : Nat} {c : LciId}

theorem rangesFrom_of_lt (hi : i < maxLogicalMemChunks) :
    rangesFrom h os i = (rangeAt h os i).toList ++ rangesFrom h os (i + 1) := by
  rw [rangesFrom, show maxLogicalMemChunks - i = (maxLogicalMemChunks - (i + 1)) + 1 by omega,
    List.range'_succ, List.filterMap_cons]
  cases rangeAt h os i <;> rfl

theorem rangesFrom_last : rangesFrom h os maxLogicalMemChunks = [] := by
  rfl

theorem rangeAt_hole (hi : os.pLci i = none) : rangeAt h os i = none := by
  rw [rangeAt, hi]

theorem rangeAt_inside (hi : os.pLci (i + 1) = os.pLci i) : rangeAt h os (i + 1) = none := by
  rw [rangeAt, hi]
  rcases hc : os.pLci i with _ | c
  · rfl
  dsimp only
  rw [if_neg]
  rintro (h0 | hne)
  · omega
  · exact hne hc

/-- The slot is not inside the run of a chunk. -/
def AtStart (os : Os) (i : Nat) : Prop := os.pLci i = none ∨ i = 0 ∨ os.pLci (i - 1) ≠ os.pLci i

theorem rangeAt_start {lci : Lci} (hat : AtStart os i) (hc : os.pLci i = some c)
    (hlci : h.lci c = some lci) : rangeAt h os i = some ⟨lci.lciLaddr, lci.lciSize⟩ := by
  rw [rangeAt, hc]
  dsimp only
  rw [if_pos, hlci]
  · rfl
  · rcases hat with hnone | h0 | hne
    · cases hnone.symm.trans hc
    · exact .inl h0
    · rw [hc] at hne
      exact .inr hne

/-! ### The loops over the slots -/

theorem slot_eq (hi : i < maxLogicalMemChunks) : os.slot i = .ok (os.pLci i) := by
  rw [Os.slot, if_pos hi]

theorem skipHoles_spec : ∀ (fuel i : Nat), i < maxLogicalMemChunks →
    maxLogicalMemChunks < i + fuel → AtStart os i →
    (skipHoles os fuel i = .ok none ∧ rangesFrom h os i = [] ∧
        os.pLci (maxLogicalMemChunks - 1) = none) ∨
      ∃ c k, skipHoles os fuel i = .ok (some (c, k)) ∧ i ≤ k ∧ k < maxLogicalMemChunks ∧
        os.pLci k = some c ∧ AtStart os k ∧ rangesFrom h os i = rangesFrom h os k
  | 0, i, hi, hfuel, _ => by omega
  | fuel + 1, i, hi, hfuel, hat => by
    rw [skipHoles, slot_eq hi, ok_bind]
    cases hc : os.pLci i with
    | some c => exact .inr ⟨c, i, rfl, le_rfl, hi, hc, hat, rfl⟩
    | none =>
      have hrest : rangesFrom h os i = rangesFrom h os (i + 1) := by
        rw [rangesFrom_of_lt hi, rangeAt_hole hc]
        rfl
      split_ifs with hend
      · have hlast : i + 1 = maxLogicalMemChunks := by omega
        rw [hrest, hlast]
        exact .inl ⟨rfl, rangesFrom_last, by rwa [← hlast]⟩
      have hat' : AtStart os (i + 1) := by
        cases hn : os.pLci (i + 1) with
        | none => exact .inl hn
        | some c =>
          refine .inr (.inr ?_)
          rw [Nat.add_sub_cancel, hc, hn]
          exact nofun
      rcases skipHoles_spec fuel (i + 1) (by omega) (by omega) hat' with
        ⟨heq, hnil, hnone⟩ | ⟨c, k, heq, hle, hk, hck, hatk, hsame⟩
      · exact .inl ⟨heq, hrest.trans hnil, hnone⟩
      · exact .inr ⟨c, k, heq, by omega, hk, hck, hatk, hrest.trans hsame⟩

theorem skipRun_spec : ∀ (fuel k : Nat), k < maxLogicalMemChunks →
    maxLogicalMemChunks < k + fuel → os.pLci k = some c →
    (skipRun os c fuel k = .error (.bounds .chunk maxLogicalMemChunks) ∧
        rangesFrom h os (k + 1) = [] ∧ os.pLci (maxLogicalMemChunks - 1) ≠ none) ∨
      ∃ k', skipRun os c fuel k = .ok k' ∧ k < k' ∧ k' < maxLogicalMemChunks ∧ AtStart os k' ∧
        rangesFrom h os (k + 1) = rangesFrom h os k'
  | 0, k, hk, hfuel, _ => by omega
  | fuel + 1, k, hk, hfuel, hc => by
    rw [skipRun]
    by_cases hlast : k + 1 = maxLogicalMemChunks
    · refine .inl ⟨?_, ?_, ?_⟩
      · rw [hlast, Os.slot, if_neg (lt_irrefl _)]
        rfl
      · rw [hlast]
        exact rangesFrom_last
      · rw [← hlast, Nat.add_sub_cancel, hc]
        exact nofun
    have hk' : k + 1 < maxLogicalMemChunks := by omega
    rw [slot_eq hk', ok_bind]
    by_cases hnext : os.pLci (k + 1) = some c
    · rw [if_pos ⟨hnext, hk'⟩]
      have hrest : rangesFrom h os (k + 1) = rangesFrom h os (k + 1 + 1) := by
        rw [rangesFrom_of_lt hk', rangeAt_inside (hnext.trans hc.symm)]
        rfl
      rcases skipRun_spec fuel (k + 1) hk' (by omega) hnext with
        ⟨heq, hnil, hne⟩ | ⟨k', heq, hlt, hlt', hat, hsame⟩
      · exact .inl ⟨heq, hrest.trans hnil, hne⟩
      · exact .inr ⟨k', heq, by omega, hlt', hat, hrest.trans hsame⟩
    rw [if_neg fun h => hnext h.1]
    refine .inr ⟨k + 1, rfl, by omega, hk', .inr (.inr ?_), rfl⟩
    rw [Nat.add_sub_cancel, hc]
    exact fun h => hnext h.symm

/-- One round of the loop over the slots: there is no chunk left, or the next one is found, and then
its run is skipped or the loop reads behind the table. -/
theorem scan_round (hp : ChunksPlaced h os) (hi : i < maxLogicalMemChunks) (hat : AtStart os i) :
    (skipHoles os (maxLogicalMemChunks + 1) i = .ok none ∧ rangesFrom h os i = [] ∧
        os.pLci (maxLogicalMemChunks - 1) = none) ∨
      ∃ c k lci rest, skipHoles os (maxLogicalMemChunks + 1) i = .ok (some (c, k)) ∧
        h.lci c = some lci ∧ rangesFrom h os i = ⟨lci.lciLaddr, lci.lciSize⟩ :: rest ∧
        ((skipRun os c (maxLogicalMemChunks + 1) k
              = .error (.bounds .chunk maxLogicalMemChunks) ∧
            rest = [] ∧ os.pLci (maxLogicalMemChunks - 1) ≠ none) ∨
          ∃ k', skipRun os c (maxLogicalMemChunks + 1) k = .ok k' ∧ i < k' ∧
            k' < maxLogicalMemChunks ∧ AtStart os k' ∧ rest = rangesFrom h os k') := by
  rcases skipHoles_spec (h := h) (maxLogicalMemChunks + 1) i hi (by omega) hat with
    hnone | ⟨c, k, heq, hik, hk, hc, hatk, hsame⟩
  · exact .inl hnone
  obtain ⟨-, lci, hlci, -, -⟩ := hp k c hc
  refine .inr ⟨c, k, lci, rangesFrom h os (k + 1), heq, hlci, ?_, ?_⟩
  · rw [hsame, rangesFrom_of_lt hk, rangeAt_start hatk hc hlci]
    rfl
  · rcases skipRun_spec (h := h) (maxLogicalMemChunks + 1) k hk (by omega) hc with
      hend | ⟨k', hrun, hlt, hlt', hat', hrest⟩
    · exact .inl hend
    · exact .inr ⟨k', hrun, by omega, hlt', hat', hrest⟩

end

/-! ### The loop over the entries -/

/-- The table with the given entries, and the others not used. -/
def tableOf (rs : List MemRange) (k : Nat) : MemRange := rs.getD k noRange

/-- What the loop reports for a list of ranges. -/
def reported : List MemRange → List MemRange
  | [] => []
  | [r] => [r]
  | r :: q :: qs => r :: mergeUpTo (maxMemRanges - 2) q qs

/-- The ranges that the loop does not come to. -/
def unread : List MemRange → List MemRange
  | [] => []
  | [_] => []
  | _ :: q :: qs => leftOver (maxMemRanges - 2) q qs

section

variable {h : Hype} {os : Os}

theorem tableOf_append (rs : List MemRange) (r : MemRange) (qs : List MemRange) :
    tableOf (rs ++ r :: qs) rs.length = r := by
  rw [tableOf, List.getD_append_right _ _ _ _ le_rfl, Nat.sub_self]
  rfl

theorem update_tableOf (rs : List MemRange) (r : MemRange) :
    update (tableOf rs) rs.length r = tableOf (rs ++ [r]) := by
  funext k
  rcases lt_trichotomy k rs.length with hlt | rfl | hgt
  · rw [update_of_ne hlt.ne, tableOf, tableOf, List.getD_append _ _ _ _ hlt]
  · rw [update_self, tableOf_append]
  · rw [update_of_ne hgt.ne', tableOf, tableOf, List.getD_eq_default _ _ hgt.le,
      List.getD_eq_default]
    rwa [List.length_append]

theorem merge_tableOf (rs : List MemRange) (r q : MemRange) :
    update (update (tableOf (rs ++ [r] ++ [q])) rs.length (r.join q))
      (rs.length + 1) noRange = tableOf (rs ++ [r.join q]) := by
  have hlen : (rs ++ [r]).length = rs.length + 1 := by
    rw [List.length_append, List.length_singleton]
  rw [← update_tableOf (rs ++ [r]) q, ← update_tableOf rs r, hlen,
    update_comm (show rs.length + 1 ≠ rs.length by omega), update_idem,
    update_idem, update_tableOf, update_eq_self_iff]
  refine (List.getD_eq_default _ _ ?_).symm
  rw [List.length_append, List.length_singleton]

theorem fillLoop_rest (hp : ChunksPlaced h os) :
    ∀ (fuel i : Nat) (rs : List MemRange) (last : MemRange), i < maxLogicalMemChunks →
      maxLogicalMemChunks < i + fuel → AtStart os i → 1 ≤ rs.length →
      rs.length + 1 ≤ maxMemRanges →
      fillLoop h os fuel (rs.length + 1) i (tableOf (rs ++ [last])) =
        if os.pLci (maxLogicalMemChunks - 1) ≠ none ∧
            leftOver (maxMemRanges - (rs.length + 1)) last (rangesFrom h os i) = [] then
          .error (.bounds .chunk maxLogicalMemChunks)
        else .ok (tableOf (rs ++
          mergeUpTo (maxMemRanges - (rs.length + 1)) last (rangesFrom h os i)))
  | 0, i, _, _, hi, hfuel, _, _, _ => by omega
  | fuel + 1, i, rs, last, hi, hfuel, hat, hone, hfit => by
    rw [fillLoop]
    by_cases hfree : rs.length + 1 < maxMemRanges
    · obtain ⟨m, hm⟩ : ∃ m, maxMemRanges - (rs.length + 1) = m + 1 :=
        ⟨maxMemRanges - (rs.length + 1) - 1, by omega⟩
      rw [if_pos hfree, hm]
      rcases scan_round hp hi hat with ⟨hskip, hnil, hlast⟩ |
        ⟨c, k, lci, rest, hskip, hlci, hcons, hrun⟩
      · rw [hskip, hnil, hlast, if_neg fun h => h.1 rfl, mergeUpTo_nil]
        rfl
      have hlen : rs.length + 1 = (rs ++ [last]).length := by
        rw [List.length_append, List.length_singleton]
      rw [hskip, hcons, ok_bind]
      dsimp only
      rw [hlci, live, ok_bind, hlen, update_tableOf, ← hlen]
      rcases hrun with ⟨hrun, rfl, hlast⟩ | ⟨k', hrun, hlt, hk', hat', rfl⟩
      · have hnil : leftOver (m + 1) last [⟨lci.lciLaddr, lci.lciSize⟩] = [] := by
          rw [leftOver]
          split_ifs <;> exact leftOver_nil _ _
        rw [hrun, if_pos ⟨hlast, hnil⟩]
        rfl
      have hprev :
          tableOf (rs ++ [last] ++ [⟨lci.lciLaddr, lci.lciSize⟩]) rs.length = last := by
        rw [List.append_assoc]
        exact tableOf_append ..
      have hnew : tableOf (rs ++ [last] ++ [⟨lci.lciLaddr, lci.lciSize⟩]) (rs.length + 1)
          = ⟨lci.lciLaddr, lci.lciSize⟩ := by
        rw [hlen]
        exact tableOf_append ..
      rw [hrun, ok_bind, Nat.add_sub_cancel, hprev, hnew, leftOver, mergeUpTo]
      by_cases hadj : last.stop = lci.lciLaddr
      · rw [if_pos ⟨by omega, hadj⟩, merge_tableOf, if_pos hadj, if_pos hadj, ← hm]
        exact fillLoop_rest hp fuel k' rs _ hk' (by omega) hat' hone hfit
      rw [if_neg fun h => hadj h.2, if_neg hadj, if_neg hadj]
      have hrec := fillLoop_rest hp fuel k' (rs ++ [last]) ⟨lci.lciLaddr, lci.lciSize⟩ hk'
        (by omega) hat' (by omega) (by omega)
      rw [← hlen, show maxMemRanges - (rs.length + 1 + 1) = m by omega] at hrec
      rw [hrec, List.append_assoc]
      rfl
    · -- the last entry was written
      rw [if_neg hfree, show maxMemRanges - (rs.length + 1) = 0 by omega]
      rcases scan_round hp hi hat with ⟨-, hnil, hlast⟩ | ⟨c, k, lci, rest, -, -, hcons, -⟩
      · rw [hnil, hlast, if_neg fun h => h.1 rfl, mergeUpTo_nil]
      · rw [hcons, if_neg fun h => List.cons_ne_nil _ _ h.2]
        rfl

theorem fillLoop_first (hp : ChunksPlaced h os) (fuel : Nat) {i : Nat} (rs : List MemRange)
    (hi : i < maxLogicalMemChunks) (hat : AtStart os i) (hlen : rs.length ≤ 1) :
    (rangesFrom h os i = [] ∧ os.pLci (maxLogicalMemChunks - 1) = none ∧
        fillLoop h os (fuel + 1) rs.length i (tableOf rs) = .ok (tableOf rs)) ∨
      ∃ r rest, rangesFrom h os i = r :: rest ∧
        ((rest = [] ∧ os.pLci (maxLogicalMemChunks - 1) ≠ none ∧
            fillLoop h os (fuel + 1) rs.length i (tableOf rs)
              = .error (.bounds .chunk maxLogicalMemChunks)) ∨
          ∃ k', i < k' ∧ k' < maxLogicalMemChunks ∧ AtStart os k' ∧ rest = rangesFrom h os k' ∧
            fillLoop h os (fuel + 1) rs.length i (tableOf rs)
              = fillLoop h os fuel (rs.length + 1) k' (tableOf (rs ++ [r]))) := by
  have hfree : rs.length < maxMemRanges := lt_of_le_of_lt hlen (by decide)
  rw [fillLoop, if_pos hfree]
  rcases scan_round hp hi hat with ⟨hskip, hnil, hlast⟩ |
    ⟨c, k, lci, rest, hskip, hlci, hcons, hrun⟩
  · rw [hskip]
    exact .inl ⟨hnil, hlast, rfl⟩
  refine .inr ⟨_, rest, hcons, ?_⟩
  rw [hskip, ok_bind]
  dsimp only
  rw [hlci, live, ok_bind, update_tableOf]
  rcases hrun with ⟨hrun, hnil, hlast⟩ | ⟨k', hrun, hlt, hk', hat', hrest⟩
  · rw [hrun]
    exact .inl ⟨hnil, hlast, rfl⟩
  · rw [hrun, ok_bind, if_neg (by omega)]
    exact .inr ⟨k', hlt, hk', hat', hrest, rfl⟩

/-- What the loop does: it reports the ranges, or it reads behind the table. -/
theorem fillLoop_eq (hp : ChunksPlaced h os) :
    fillLoop h os (maxLogicalMemChunks + 1) 0 0 (fun _ => noRange) =
      if os.pLci (maxLogicalMemChunks - 1) ≠ none ∧ unread (mappedRanges h os) = [] then
        .error (.bounds .chunk maxLogicalMemChunks)
      else .ok (tableOf (reported (mappedRanges h os))) := by
  rw [mappedRanges]
  rcases fillLoop_first hp maxLogicalMemChunks (i := 0) [] (by decide) (.inr (.inl rfl))
    (by decide) with ⟨hnil, hlast, hx⟩ | ⟨r, rest, hcons, hround⟩
  · rwa [hnil, hlast]
  rcases hround with ⟨rfl, hlast, hx⟩ | ⟨k, hpos, hk, hat, rfl, hx⟩
  · rwa [hcons, if_pos ⟨hlast, rfl⟩]
  refine hx.trans ?_
  rw [hcons]
  rcases fillLoop_first hp (maxLogicalMemChunks - 1) [r] hk hat le_rfl with
    ⟨hnil, hlast, hx⟩ | ⟨q, rest, hcons', hround⟩
  · rwa [hnil, hlast]
  rcases hround with ⟨rfl, hlast, hx⟩ | ⟨k', hlt, hk', hat', rfl, hx⟩
  · rwa [hcons', if_pos ⟨hlast, leftOver_nil (maxMemRanges - 2) q⟩]
  refine hx.trans ?_
  rw [hcons']
  exact fillLoop_rest hp (maxLogicalMemChunks - 1) k' [r] q hk' (by omega) hat' le_rfl
    (show 2 ≤ maxMemRanges by decide)

end

/-! ### When the report is right -/

section

variable {h : Hype} {os : Os} {r m : MemRange} {i : Nat}

/-- The range of a chunk begins in its first slot and ends inside the table; the slots up to its end
are its own. -/
structure RangeOfSlot (os : Os) (i : Nat) (r : MemRange) : Prop where
  first : r.addr.toNat / 2 ^ 26 = i
  last : r.addr.toNat + r.size.toNat ≤ maxLogicalMemChunks * 2 ^ 26
  pos : 0 < r.size.toNat
  slots : ∃ c, ∀ j, os.pLci j = some c ↔ i ≤ j ∧ j * 2 ^ 26 < r.addr.toNat + r.size.toNat

theorem rangeOfSlot (hp : ChunksPlaced h os)
    (hr : rangeAt h os i = some r) : RangeOfSlot os i r := by
  rw [rangeAt] at hr
  rcases hc : os.pLci i with _ | c
  · rw [hc] at hr
    cases hr
  rw [hc] at hr
  dsimp only at hr
  split_ifs at hr with hstart
  obtain ⟨hlt, lci, hlci, hpos, hrun⟩ := hp i c hc
  rw [hlci] at hr
  cases hr
  obtain ⟨hlo, hhi⟩ := (hrun i).1 hc
  have hfirst : lci.lciLaddr.toNat / 2 ^ 26 = i := by
    rcases hstart with rfl | hne
    · omega
    · have hnot : ¬ InRun lci (i - 1) := fun hin => hne ((hrun (i - 1)).2 hin)
      unfold InRun at hnot
      omega
  have hlast : lci.lciLaddr.toNat + lci.lciSize.toNat ≤ maxLogicalMemChunks * 2 ^ 26 := by
    by_contra hgt
    have hin : InRun lci maxLogicalMemChunks := by
      unfold InRun
      omega
    exact lt_irrefl _ (hp _ c ((hrun _).2 hin)).1
  exact ⟨hfirst, hlast, hpos, c, fun j => by rw [hrun, InRun, hfirst]⟩

theorem RangeOfSlot.toNat_stop (hr : RangeOfSlot os i r) :
    r.stop.toNat = r.addr.toNat + r.size.toNat := by
  have hlast := hr.last
  unfold maxLogicalMemChunks at hlast
  exact Nat.mod_eq_of_lt (by omega)

theorem RangeOfSlot.stop_le {j : Nat} {q : MemRange} (hr : RangeOfSlot os i r)
    (hq : RangeOfSlot os j q) (hij : i < j) : r.stop.toNat ≤ q.addr.toNat := by
  rw [hr.toNat_stop]
  obtain ⟨c, hc⟩ := hr.slots
  obtain ⟨d, hd⟩ := hq.slots
  have hfirst' := hq.first
  have hpos' := hq.pos
  by_contra hgt
  -- slot `j` would belong to both chunks, and then slot `i` too
  have hcd : c = d := by
    have hjc := (hc j).2 ⟨hij.le, by omega⟩
    have hjd := (hd j).2 ⟨le_rfl, by omega⟩
    exact Option.some.inj (hjc.symm.trans hjd)
  subst hcd
  have hji := ((hd i).1 ((hc i).2 ⟨le_rfl, by omega⟩)).1
  omega

theorem nodup_stops (hp : ChunksPlaced h os) : ((mappedRanges h os).map stop).Nodup := by
  rw [List.Nodup, List.pairwise_map, mappedRanges, rangesFrom, List.pairwise_filterMap]
  refine (List.pairwise_lt_range' (s := 0) (n := maxLogicalMemChunks - 0)).imp ?_
  intro i j hij r hr q hq heq
  have hi := rangeOfSlot hp hr
  have hj := rangeOfSlot hp hq
  have hle := hi.stop_le hj hij
  have hpos := hj.pos
  rw [heq, hj.toNat_stop] at hle
  omega

theorem noRange_stop (hp : ChunksPlaced h os) : noRange.stop ∉ (mappedRanges h os).map stop := by
  intro hmem
  obtain ⟨r, hr, hstop⟩ := List.mem_map.1 hmem
  obtain ⟨i, -, hi⟩ := List.mem_filterMap.1 hr
  have hr := rangeOfSlot hp hi
  have hlast := hr.last
  rw [← hr.toNat_stop, hstop] at hlast
  exact absurd hlast nofun

theorem tableOf_inj {rs qs : List MemRange} (hr : noRange ∉ rs) (hq : noRange ∉ qs) :
    tableOf rs = tableOf qs ↔ rs = qs := by
  refine ⟨fun heq => List.ext_getElem? fun k => ?_, fun heq => by rw [heq]⟩
  have hk := congrFun heq k
  unfold tableOf at hk
  rw [List.getD_eq_getElem?_getD, List.getD_eq_getElem?_getD] at hk
  rcases hrk : rs[k]? with _ | r
  · cases hqk : qs[k]? with
    | none => rfl
    | some q =>
      rw [hrk, hqk] at hk
      exact absurd (List.mem_of_getElem? (hqk.trans (congrArg some hk.symm))) hq
  cases hqk : qs[k]? with
  | none =>
    rw [hrk, hqk] at hk
    exact absurd (List.mem_of_getElem? (hrk.trans (congrArg some hk))) hr
  | some q =>
    rw [hrk, hqk] at hk
    exact congrArg some hk

/-- Ranges that should have been merged were not: the second one continues the first one, or the
table is full and the next range continues the last entry. -/
def MergeMissed : List MemRange → Prop
  | [] => False
  | [_] => False
  | r :: q :: qs => r.stop = q.addr ∨ Continues (maxMemRanges - 2) q qs

theorem reported_eq_iff {rs : List MemRange} (hnodup : (rs.map stop).Nodup) :
    reported rs = (merge rs).take maxMemRanges ↔ ¬ MergeMissed rs := by
  match rs, hnodup with
  | [], _ => exact iff_of_true rfl id
  | [r], _ => exact iff_of_true rfl id
  | r :: q :: qs, hnodup =>
    rw [reported, merge, mergeFrom, MergeMissed]
    split_ifs with hadj
    · exact iff_of_false (cons_ne_take_mergeFrom hadj hnodup _) fun h => h (.inl hadj)
    rw [or_iff_right hadj, ← mergeUpTo_eq_take_iff (List.nodup_cons.1 hnodup).2]
    show _ = (r :: mergeFrom q qs).take (4 + 1) ↔ _
    rw [List.take_succ_cons, List.cons.injEq, and_iff_right rfl]
    rfl

theorem stop_mem_of_mem_merge : ∀ {rs : List MemRange},
    m ∈ merge rs → m.stop ∈ rs.map stop
  | _ :: _, hm => stop_mem_of_mem_mergeFrom hm

theorem stop_mem_of_mem_reported : ∀ {rs : List MemRange},
    m ∈ reported rs → m.stop ∈ rs.map stop
  | [_], hm => List.mem_map_of_mem hm
  | r :: q :: qs, hm => by
    rcases List.mem_cons.1 hm with rfl | hm
    · exact List.mem_cons_self
    · exact List.mem_cons_of_mem _ (stop_mem_of_mem_mergeUpTo hm)

end

/-! ### Small tables -/

/-- A partition with chunks of 64 MB in the given slots. -/
def chunksOs (slots : List Nat) : Os :=
  { smallOs with pLci := fun i => if i ∈ slots then some i else none }

def chunksAt (slots : List Nat) : Hype :=
  { Hype.boot fun _ => some (chunksOs slots) with lci := fun k => some (oneChunkLci k) }

theorem chunksPlaced_chunksAt {slots : List Nat} (hs : ∀ i ∈ slots, i < maxLogicalMemChunks) :
    ChunksPlaced (chunksAt slots) (chunksOs slots) := by
  have hpLci : ∀ i c : Nat, (chunksOs slots).pLci i = some c ↔ i ∈ slots ∧ i = c := by
    intro i c
    show (if i ∈ slots then some i else none) = some c ↔ _
    split_ifs with hi <;> simp [hi]
  intro (i : Nat) (c : Nat) hc
  obtain ⟨hi, rfl⟩ := (hpLci i c).1 hc
  have hbase : (oneChunkLci i).lciLaddr.toNat = i * 2 ^ 26 := toNat_slotBase (hs i hi).le
  have hsize : (oneChunkLci i).lciSize.toNat = 2 ^ 26 := rfl
  refine ⟨hs i hi, oneChunkLci i, rfl, by rw [hsize]; decide, fun (j : Nat) => ?_⟩
  rw [hpLci, InRun, hbase, hsize]
  constructor
  · rintro ⟨-, rfl⟩
    omega
  · intro h
    obtain rfl : j = i := by omega
    exact ⟨hi, rfl⟩

end Rhype
