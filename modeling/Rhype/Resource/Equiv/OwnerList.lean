import Rhype.Resource.Equiv.Frame
import Rhype.Ring.Equiv

/-!
# The lists of the partitions

`findRes` is the loop of the functions that look through the list of a partition.  What it finds is
linked in a list, without any property of the lists; where the list is a ring, a loop that finds
nothing has looked at every resource.

The cells of these lists and those of the trees of resources are kept apart (`Separated`), so that
what happens to the trees does not change the lists, and the other way round.
-/

namespace Rhype

open DRef List

section

variable {h : Hype} {o : OsId} {rs : List ResId} {α : Type}

theorem findRes_found {f : ResId → SysResource → Hv (Option α)} {a : α} (fuel : Nat) (curr : DRef)
    (hcurr : ∀ r, curr = .osRes r → Pointed h.dl r) (hx : findRes h o f fuel curr = .ok (some a)) :
    ∃ r sr, h.res r = some sr ∧ Pointed h.dl r ∧ f r sr = .ok (some a) := by
  induction fuel generalizing curr with
  | zero => cases hx
  | succ fuel ih =>
    unfold findRes at hx
    split_ifs at hx
    · cases hx
    split at hx
    · next r _ =>
      obtain ⟨sr, hsr, hx⟩ := of_live hx
      obtain ⟨found, hf, hx⟩ := of_seq hx
      cases found with
      | some b =>
        cases hx
        exact ⟨r, sr, hsr, hcurr r rfl, hf⟩
      | none =>
        refine ih _ (fun r' hr' => ?_) hx
        rcases eq_or_ne r r' with rfl | hne
        · exact hcurr r rfl
        · exact ⟨.osRes r, fun he => hne (osRes.inj he), hr'⟩
    · cases hx

theorem findRes_none {f : ResId → SysResource → Hv (Option α)}
    (hring : h.dl.IsRing (.poResources o) (rs.map .osRes)) {fuel : Nat} {pre post : List ResId}
    (hrs : rs = pre ++ post)
    (hx : findRes h o f fuel ((post.map osRes).head?.getD (.poResources o)) = .ok none) :
    ∀ q ∈ post, ∃ sr, h.res q = some sr ∧ f q sr = .ok none := by
  induction fuel generalizing pre post with
  | zero => cases hx
  | succ fuel ih =>
    rcases post with _ | ⟨p, post⟩
    · exact nofun
    simp only [map_cons, head?_cons, Option.getD_some] at hx
    obtain ⟨sr, hsr, hx⟩ := of_live hx
    obtain ⟨answer, hf, hx⟩ := of_seq hx
    cases answer with
    | some a => cases hx
    | none =>
      have hnext : h.dl.next (.osRes p) = (post.map .osRes).head?.getD (.poResources o) := by
        apply Links.IsRing.next_cell
        rwa [hrs, map_append] at hring
      rw [hnext] at hx
      intro q hq
      rcases mem_cons.1 hq with rfl | hq
      · exact ⟨sr, hsr, hf⟩
      · have hrs' : rs = (pre ++ [p]) ++ post := by simp [hrs]
        exact ih hrs' hx q hq

/-- A resource that a call may use has the cookie, and has not been rescinded. -/
theorem getSysResource_found {cookie : Uval} {r : ResId}
    (hx : getSysResource h o cookie = .ok (hSuccess, some r)) :
    ∃ sr, h.res r = some sr ∧ sr.srCookie = cookie ∧ sr.srRescinded = false ∧
      Pointed h.dl r := by
  obtain ⟨_, -, hx⟩ := of_seq hx
  obtain ⟨_ | a, hfind, hx⟩ := of_seq hx
  · cases hx
  obtain ⟨r', sr, hsr, hp, hf⟩ := findRes_found _ _
    (fun r hr => ⟨.poResources o, nofun, hr⟩) hfind
  split_ifs at hf with hcookie
  · cases hf
    dsimp only at hx
    split_ifs at hx with hre
    · cases hx
    · cases hx
      exact ⟨sr, hsr, hcookie, by simpa using hre, hp⟩
  · cases hf

end

/-! ### The cells of the lists of the partitions -/

/-- The cell is one of the list of a partition, and not of a tree of resources. -/
def DRef.ofList : DRef → Bool
  | .osRes _ => true
  | .poResources _ => true
  | _ => false

/-- The lists of the partitions and the trees of resources do not share cells. -/
def Separated (L : Links DRef) : Prop :=
  ∀ d, (L.next d).ofList = d.ofList ∧ (L.prev d).ofList = d.ofList

namespace Separated

variable {L : Links DRef} {x d head : DRef} {xs : List DRef}

section

variable (hs : Separated L)
include hs

theorem init (e : DRef) : Separated (L.init e) := by
  intro c
  simp only [Links.init, Links.next_setPrev, Links.next_setNext, Links.prev_setPrev,
    Links.prev_setNext]
  split_ifs with hc
  · simp [hc]
  · exact hs c

theorem detach (x : DRef) : Separated (L.detach x) := by
  intro c
  simp only [Links.detach, Links.next_setPrev, Links.next_setNext, Links.prev_setPrev,
    Links.prev_setNext]
  refine ⟨?_, ?_⟩
  · split_ifs with hc
    · rw [hc, (hs x).1, (hs x).2]
    · exact (hs c).1
  · split_ifs with hc
    · rw [hc, (hs x).1, (hs x).2]
    · exact (hs c).2

theorem insBefore (hxd : x.ofList = d.ofList) : Separated (L.insBefore x d) := by
  intro c
  simp only [Links.insBefore, Links.next_setPrev, Links.next_setNext, Links.prev_setPrev,
    Links.prev_setNext]
  refine ⟨?_, ?_⟩
  · split_ifs with hd hx
    · rw [hd, (hs d).2, hxd]
    · rw [hx, (hs x).2, hxd]
    · exact (hs c).1
  · split_ifs with hx hd
    · rw [hx, (hs d).2, hxd]
    · rw [hd, (hs x).2, hxd]
    · exact (hs c).2

theorem detach_of_ne (hk : d.ofList ≠ x.ofList) :
    (L.detach x).next d = L.next d ∧ (L.detach x).prev d = L.prev d := by
  have hp : d ≠ L.prev x := fun he => hk (he ▸ (hs x).2)
  have hn : d ≠ L.next x := fun he => hk (he ▸ (hs x).1)
  simp [Links.detach, hp, hn]

theorem ring_insBefore {kind : Bool} (hr : L.IsRing head xs)
    (hkind : ∀ c ∈ head :: xs, c.ofList = kind) (hx : x.ofList ≠ kind) (hd : d.ofList ≠ kind) :
    (L.insBefore x d).IsRing head xs := by
  have hnot : ∀ c, c.ofList ≠ kind → c ∉ head :: xs := fun c hc hmem => hc (hkind c hmem)
  exact hr.insBefore_frame (hnot x hx) (hnot d hd) (hnot _ ((hs x).2 ▸ hx)) (hnot _ ((hs d).2 ▸ hd))

end

end Separated

theorem ofList_of_mem {o : OsId} {rs : List ResId} :
    ∀ c ∈ poResources o :: rs.map osRes, c.ofList = true := by
  intro c hc
  rcases mem_cons.1 hc with rfl | hc
  · rfl
  · obtain ⟨r, -, rfl⟩ := mem_map.1 hc
    rfl

theorem isRing_siblings_congr {L L' : Links DRef} {head : DRef} {xs : List ResId}
    (hr : L.IsRing head (xs.map .siblings)) (hhead : head.ofList = false)
    (hsame : ∀ d, d.ofList = false → L'.next d = L.next d ∧ L'.prev d = L.prev d) :
    L'.IsRing head (xs.map .siblings) := by
  have hkind : ∀ d ∈ head :: xs.map .siblings, d.ofList = false := by
    intro d hd
    rcases mem_cons.1 hd with rfl | hd
    · exact hhead
    · obtain ⟨y, -, rfl⟩ := mem_map.1 hd
      rfl
  exact hr.congr (fun d hd => (hsame d (hkind d hd)).1) fun d hd => (hsame d (hkind d hd)).2

theorem osRes_mem_iff {o : OsId} {rs : List ResId} {r : ResId} :
    osRes r ∈ poResources o :: rs.map osRes ↔ r ∈ rs := by
  simp

end Rhype
