import Rhype.Resource.Equiv.Accept
import Rhype.Resource.Equiv.Frame

/-!
# What an accept leaves alone

`AcceptFrame n r h h'` says what the accept of the resource `r` can change of the objects with a
number below `n`: the chunk of `r` gets a place and is enabled, and nothing happens to the other
chunks, to the resources and to the lists.  A page-share manager that is made on the way has a new
number.
-/

namespace Rhype

/-- The chunk is the same piece of memory; its place may be another one. -/
structure Lci.SameMem (lci lci' : Lci) : Prop where
  raddr : lci'.lciRaddr = lci.lciRaddr
  size : lci'.lciSize = lci.lciSize

theorem Lci.SameMem.refl (lci : Lci) : lci.SameMem lci := ⟨rfl, rfl⟩

theorem Lci.SameMem.trans (a b c : Lci) (h1 : a.SameMem b) (h2 : b.SameMem c) : a.SameMem c :=
  ⟨h2.raddr.trans h1.raddr, h2.size.trans h1.size⟩

/-- What an accept can change of the objects below `n`. -/
structure AcceptFrame (n : Nat) (r : ResId) (h h' : Hype) : Prop where
  res : h'.res = h.res
  dl : h'.dl = h.dl
  rcu : h'.rcu = h.rcu
  next : h.next ≤ h'.next
  other : ∀ c < n, c ≠ r → h'.lci c = h.lci c
  own : r < n → Option.Rel Lci.SameMem (h.lci r) (h'.lci r)

namespace AcceptFrame

variable {n : Nat} {r : ResId} {h h' h'' : Hype}

theorem refl (n : Nat) (r : ResId) (h : Hype) : AcceptFrame n r h h :=
  ⟨rfl, rfl, rfl, le_rfl, fun _ _ _ => rfl, fun _ => rel_refl Lci.SameMem.refl _⟩

theorem trans (h1 : AcceptFrame n r h h') (h2 : AcceptFrame n r h' h'') :
    AcceptFrame n r h h'' where
  res := h2.res.trans h1.res
  dl := h2.dl.trans h1.dl
  rcu := h2.rcu.trans h1.rcu
  next := h1.next.trans h2.next
  other := fun c hc hr => (h2.other c hc hr).trans (h1.other c hc hr)
  own := fun hr => rel_trans Lci.SameMem.trans (h1.own hr) (h2.own hr)

theorem setLciObj {c : LciId} {lci lci' : Lci} (hlci : h.lci c = some lci)
    (hsame : lci.SameMem lci') (hc : c = r ∨ n ≤ c) : AcceptFrame n r h (h.setLciObj c lci') where
  __ := refl n r h
  other := by
    intro d hd hdr
    apply Function.update_of_ne
    rcases hc with rfl | hc
    · exact hdr
    · exact (hd.trans_le hc).ne
  own := fun _ => rel_update Lci.SameMem.refl hlci hsame r

theorem setOs (o : OsId) (os : Os) : AcceptFrame n r h (h.setOs o os) := { refl n r h with }

theorem setPsm (p : LciId) (psm : Psm) : AcceptFrame n r h (h.setPsm p psm) := { refl n r h with }

end AcceptFrame

section

variable {n : Nat} {r : ResId} {h h' : Hype} {o : OsId} {c : LciId} {hint : Uval} {fresh : FreshPsm}
  {rc : Sval} {a : Uval}

theorem SetLciStep.frame {os : Os} {lci : Lci} {i : Nat} {pLci : Nat → Option LciId}
    {usage : Lbm maxLogicalMemChunks} (st : SetLciStep h o hint c os lci i pLci usage h')
    (hc : c = r ∨ n ≤ c) : AcceptFrame n r h h' := by
  rw [st.state]
  exact (AcceptFrame.setOs o _).trans (.setLciObj st.lci_eq ⟨rfl, rfl⟩ hc)

theorem setLci_frame {ret : Uval} (hx : setLci h o hint c = .ok (ret, h')) (hc : c = r ∨ n ≤ c) :
    AcceptFrame n r h h' := by
  rcases setLci_ok hx with ⟨-, rfl, -⟩ | ⟨os, lci, i, pLci, usage, st, -⟩
  · exact .refl n r h'
  · exact st.frame hc

theorem lciEnable_acceptFrame (hx : lciEnable h r = .ok h') : AcceptFrame n r h h' := by
  obtain ⟨lci, hlci, rfl⟩ := lciEnable_ok hx
  exact .setLciObj hlci ⟨rfl, rfl⟩ (.inl rfl)

theorem PlacedBy.frame (hp : PlacedBy h o hint r h') : AcceptFrame n r h h' := by
  obtain ⟨ret, h1, hset, hen⟩ := hp
  exact (setLci_frame hset (.inl rfl)).trans (lciEnable_acceptFrame hen)

theorem initOsPsm_frame {p : LciId} (hx : initOsPsm h o fresh = .ok (p, h')) :
    AcceptFrame h.next r h h' := by
  obtain ⟨os, -, ⟨-, rfl⟩ | ⟨-, rfl, os1, lci, i, pLci, usage, st⟩⟩ := initOsPsm_ok hx
  · exact .refl _ r _
  have hinst : AcceptFrame h.next r h (installPsm h o os fresh) :=
    { AcceptFrame.refl h.next r h with
      next := Nat.le_succ _
      other := fun c hc _ => Function.update_of_ne hc.ne ..
      own := fun hr => by
        have hne : (installPsm h o os fresh).lci r = h.lci r := Function.update_of_ne hr.ne ..
        rw [hne]
        exact rel_refl Lci.SameMem.refl _ }
  exact hinst.trans (st.frame (.inr le_rfl))

theorem SharedBy.frame (hs : SharedBy h o fresh r rc h') : AcceptFrame h.next r h h' := by
  obtain ⟨p, h1, h2, hinit, haccept, hend⟩ := hs
  have hpsm : AcceptFrame h.next r h1 h2 := by
    rcases psmAccept_ok haccept with ⟨-, rfl⟩ | ⟨-, psm, psmLci, lci, idx, psm', st⟩
    · exact .refl _ r _
    · rw [st.state]
      exact (AcceptFrame.setPsm p psm').trans (.setLciObj st.lci_eq ⟨rfl, rfl⟩ (.inl rfl))
  have hstart := (initOsPsm_frame hinit).trans hpsm
  rcases hend with ⟨-, rfl⟩ | ⟨-, hen⟩
  · exact hstart
  · exact hstart.trans (lciEnable_acceptFrame hen)

theorem acceptFn_frame {t : ResType} {vio : Sval × Uval}
    (hx : acceptFn h t r fresh vio = .ok (rc, a, h')) : AcceptFrame h.next r h h' := by
  match t with
  | .mem .memAddr =>
    obtain ⟨sr, o, lci, -, -, -, -, ⟨-, -, hp⟩ | ⟨-, hs⟩⟩ := memAccept_ok hx
    · exact hp.frame
    · exact hs.frame
  | .mem .mmioAddr =>
    obtain ⟨sr, o, lci, -, -, -, -, -, hp, -⟩ := mmioAccept_ok hx
    exact hp.frame
  | .intrSrc =>
    cases hx
    exact .refl _ r _

end

end Rhype
