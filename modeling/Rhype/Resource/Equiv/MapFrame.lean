import Rhype.Resource.Equiv.Cleanup
import Rhype.Resource.Equiv.Export
import Rhype.Resource.Equiv.Frame

/-!
# What leaves the chunk tables alone

Most of what the operations on memory resources do changes neither the chunk table of a partition
nor the place of a chunk in it.  `MapFrame` says what such a part of an operation can change: chunks
and resources may be new, but then they are not mapped; no resource is mapped or unmapped, and none
is queued to be destroyed.
-/

namespace Rhype

open Function Option

/-- The partition has the same chunk table, bitmap and page-share manager. -/
structure Os.SameMap (os os' : Os) : Prop where
  pLci : os'.pLci = os.pLci
  usage : os'.chunkUsage = os.chunkUsage
  psm : os'.poPsm = os.poPsm

/-- The chunk has the same place. -/
structure Lci.SamePlace (lci lci' : Lci) : Prop where
  laddr : lci'.lciLaddr = lci.lciLaddr
  size : lci'.lciSize = lci.lciSize
  os : lci'.lciOs = lci.lciOs

/-- The resource is as much mapped as before, by the same partition; it may be rescinded. -/
structure SysResource.Keeps (sr sr' : SysResource) : Prop where
  type : sr'.srType = sr.srType
  mapped : sr'.srMapped = sr.srMapped
  owner : sr.srMapped = true → sr'.srOwner = sr.srOwner
  rescinded : sr.srRescinded = true → sr'.srRescinded = true

theorem Os.SameMap.refl (os : Os) : os.SameMap os := ⟨rfl, rfl, rfl⟩

theorem Os.SameMap.trans (a b c : Os) (h1 : a.SameMap b) (h2 : b.SameMap c) : a.SameMap c :=
  ⟨h2.pLci.trans h1.pLci, h2.usage.trans h1.usage, h2.psm.trans h1.psm⟩

theorem Lci.SamePlace.refl (lci : Lci) : lci.SamePlace lci := ⟨rfl, rfl, rfl⟩

theorem Lci.SamePlace.trans {a b c : Lci} (h1 : a.SamePlace b) (h2 : b.SamePlace c) :
    a.SamePlace c :=
  ⟨h2.laddr.trans h1.laddr, h2.size.trans h1.size, h2.os.trans h1.os⟩

theorem SysResource.Keeps.refl (sr : SysResource) : sr.Keeps sr := ⟨rfl, rfl, fun _ => rfl, id⟩

theorem SysResource.Keeps.trans {a b c : SysResource} (h1 : a.Keeps b) (h2 : b.Keeps c) :
    a.Keeps c :=
  ⟨h2.type.trans h1.type, h2.mapped.trans h1.mapped,
    fun hm => (h2.owner (h1.mapped.trans hm)).trans (h1.owner hm),
    fun hr => h2.rescinded (h1.rescinded hr)⟩

/-- The chunk tables and what is mapped in them are left alone. -/
structure MapFrame (h h' : Hype) : Prop where
  os : ∀ o, Rel Os.SameMap (h.os o) (h'.os o)
  lci : ∀ c lci, h.lci c = some lci → ∃ lci', h'.lci c = some lci' ∧ lci.SamePlace lci'
  res : ∀ r sr, h.res r = some sr → ∃ sr', h'.res r = some sr' ∧ sr.Keeps sr'
  newLci : ∀ c lci', h.lci c = none → h'.lci c = some lci' → h.next ≤ c ∧ c < h'.next
  newRes : ∀ r sr', h.res r = none → h'.res r = some sr' → (h.next ≤ r ∧ r < h'.next) ∧
    sr'.srMapped = false ∧ (∃ t, sr'.srType = .mem t) ∧ (h'.lci r).isSome = true
  physMem : ∀ c, .physMem c ∈ h'.rcu ↔ .physMem c ∈ h.rcu
  psm : ∀ c, .psm c ∈ h'.rcu ↔ .psm c ∈ h.rcu
  next : h.next ≤ h'.next
  /-- A cell of a list of a partition is only linked if its resource is rescinded or not queued. -/
  pointed : ∀ r, Pointed h'.dl r → Pointed h.dl r ∨ ∃ sr', h'.res r = some sr' ∧
    (sr'.srRescinded = true ∨ .physMem r ∉ h'.rcu)

namespace MapFrame

variable {h h' h'' : Hype}

theorem refl (h : Hype) : MapFrame h h where
  os := fun _ => rel_refl Os.SameMap.refl _
  lci := fun _ lci hlci => ⟨lci, hlci, .refl lci⟩
  res := fun _ sr hsr => ⟨sr, hsr, .refl sr⟩
  newLci := fun _ _ hnone hsome => absurd (hnone.symm.trans hsome) nofun
  newRes := fun _ _ hnone hsome => absurd (hnone.symm.trans hsome) nofun
  physMem := fun _ => .rfl
  psm := fun _ => .rfl
  next := le_rfl
  pointed := fun _ hp => .inl hp

theorem trans (h1 : MapFrame h h') (h2 : MapFrame h' h'') : MapFrame h h'' where
  os := fun o => rel_trans Os.SameMap.trans (h1.os o) (h2.os o)
  lci := by
    intro c lci hlci
    obtain ⟨lci', hlci', hp⟩ := h1.lci c lci hlci
    obtain ⟨lci'', hlci'', hp'⟩ := h2.lci c lci' hlci'
    exact ⟨lci'', hlci'', hp.trans hp'⟩
  res := by
    intro r sr hsr
    obtain ⟨sr', hsr', hk⟩ := h1.res r sr hsr
    obtain ⟨sr'', hsr'', hk'⟩ := h2.res r sr' hsr'
    exact ⟨sr'', hsr'', hk.trans hk'⟩
  newLci := by
    intro c lci'' hnone hsome
    have hle := h1.next
    have hle' := h2.next
    -- the chunk is new in the first or in the second change
    cases hmid : h'.lci c with
    | none =>
      have hnew := h2.newLci c lci'' hmid hsome
      exact ⟨hle.trans hnew.1, hnew.2⟩
    | some lci' =>
      have hnew := h1.newLci c lci' hnone hmid
      exact ⟨hnew.1, hnew.2.trans_le hle'⟩
  newRes := by
    intro r sr'' hnone hsome
    have hle := h1.next
    have hle' := h2.next
    rcases hmid : h'.res r with _ | sr'
    · obtain ⟨hr, hrest⟩ := h2.newRes r sr'' hmid hsome
      exact ⟨⟨hle.trans hr.1, hr.2⟩, hrest⟩
    obtain ⟨hr, hmapped, ⟨t, ht⟩, hlci⟩ := h1.newRes r sr' hnone hmid
    obtain ⟨_, hsr'', hk⟩ := h2.res r sr' hmid
    cases hsr''.symm.trans hsome
    obtain ⟨lci', hlci'⟩ := isSome_iff_exists.1 hlci
    obtain ⟨lci'', hlci'', -⟩ := h2.lci r lci' hlci'
    exact ⟨⟨hr.1, hr.2.trans_le hle'⟩, hk.mapped.trans hmapped, ⟨t, hk.type.trans ht⟩,
      isSome_of_eq_some hlci''⟩
  physMem := fun c => (h2.physMem c).trans (h1.physMem c)
  psm := fun c => (h2.psm c).trans (h1.psm c)
  next := h1.next.trans h2.next
  pointed := by
    intro r hp
    rcases h2.pointed r hp with hp | hnew
    · rcases h1.pointed r hp with hp | ⟨sr', hsr', hwhy⟩
      · exact .inl hp
      · obtain ⟨sr'', hsr'', hk⟩ := h2.res r sr' hsr'
        refine .inr ⟨sr'', hsr'', hwhy.imp hk.rescinded fun hq hq'' => hq ?_⟩
        exact (h2.physMem r).1 hq''
    · exact .inr hnew

/-! ### The elementary changes -/

theorem of_mark (hf : MarkFrame h h') : MapFrame h h' where
  os := by
    rw [hf.os]
    exact fun _ => rel_refl Os.SameMap.refl _
  lci := by
    intro c lci hlci
    obtain ⟨lci', hlci', hd⟩ := rel_some (hf.lci c) hlci
    refine ⟨lci', hlci', ?_⟩
    rcases hd with rfl | rfl <;> exact ⟨rfl, rfl, rfl⟩
  res := by
    intro r sr hsr
    obtain ⟨sr', hsr', hm⟩ := rel_some (hf.res r) hsr
    exact ⟨sr', hsr', hm.type, hm.mapped, fun _ => hm.owner, hm.rescinded⟩
  newLci := by
    intro c lci' hnone hsome
    have hsame := rel_isSome (hf.lci c)
    rw [hnone, hsome] at hsame
    cases hsame
  newRes := by
    intro r sr' hnone hsome
    have hsame := rel_isSome (hf.res r)
    rw [hnone, hsome] at hsame
    cases hsame
  physMem := fun c => by rw [hf.rcu]
  psm := fun c => by rw [hf.rcu]
  next := hf.next.ge
  pointed := fun r hp => .inl (hf.pointed r hp)

theorem setDl {L : Links DRef}
    (hL : ∀ r, Pointed L r → Pointed h.dl r ∨ ∃ sr, h.res r = some sr ∧
      (sr.srRescinded = true ∨ .physMem r ∉ h.rcu)) : MapFrame h (h.setDl L) :=
  { refl h with pointed := hL }

theorem setOs {o : OsId} {os os' : Os} (hos : h.os o = some os) (hm : os.SameMap os') :
    MapFrame h (h.setOs o os') :=
  { refl h with os := rel_update Os.SameMap.refl hos hm }

theorem setLciObj {c : LciId} {lci lci' : Lci} (hlci : h.lci c = some lci)
    (hp : lci.SamePlace lci') : MapFrame h (h.setLciObj c lci') where
  __ := refl h
  lci := by
    intro d l hl
    rcases eq_or_ne d c with rfl | hd
    · cases hlci.symm.trans hl
      exact ⟨lci', update_self .., hp⟩
    · exact ⟨l, (update_of_ne hd ..).trans hl, .refl l⟩
  newLci := by
    intro d l hnone hsome
    have hd : d ≠ c := fun hd => absurd ((hd ▸ hnone).symm.trans hlci) nofun
    cases hnone.symm.trans ((update_of_ne hd ..).symm.trans hsome)
  newRes := fun _ _ hnone hsome => absurd (hnone.symm.trans hsome) nofun

theorem setRes {r : ResId} {sr sr' : SysResource} (hsr : h.res r = some sr) (hk : sr.Keeps sr') :
    MapFrame h (h.setRes r sr') where
  __ := refl h
  res := by
    intro q s hs
    rcases eq_or_ne q r with rfl | hq
    · cases hsr.symm.trans hs
      exact ⟨sr', update_self .., hk⟩
    · exact ⟨s, (update_of_ne hq ..).trans hs, .refl s⟩
  newRes := by
    intro q s hnone hsome
    have hq : q ≠ r := fun hq => absurd ((hq ▸ hnone).symm.trans hsr) nofun
    cases hnone.symm.trans ((update_of_ne hq ..).symm.trans hsome)
  pointed := fun q hp => .inl hp

theorem setPsm (psms : LciId → Option Psm) : MapFrame h { h with psm := psms } :=
  { refl h with }

theorem rcuDefer {n : RcuNode} (hphys : ∀ c, n ≠ .physMem c) (hpsm : ∀ c, n ≠ .psm c) :
    MapFrame h (h.rcuDefer n) where
  __ := refl h
  physMem := fun c => by simp [(hphys c).symm]
  psm := fun c => by simp [(hpsm c).symm]
  pointed := fun q hp => .inl hp

end MapFrame

/-! ### The functions -/

section

variable {h h' : Hype} {c : LciId} {r : ResId} {o : OsId} {rc : Sval} {sr : SysResource}

theorem UnmapStep.mapFrame (hs : UnmapStep h c h') : MapFrame h h' := by
  cases hs with
  | none => exact .refl h
  | @some lci o os psms ht n hlci hos _ _ =>
    have hos' : MapFrame h (h.setOs o { os with htab := ht }) := .setOs hos ⟨rfl, rfl, rfl⟩
    have hlci' : MapFrame (h.setOs o { os with htab := ht })
        ((h.setOs o { os with htab := ht }).setLciObj c { lci with lciPtecount := n }) :=
      .setLciObj hlci ⟨rfl, rfl, rfl⟩
    exact (hos'.trans hlci').trans (.setPsm psms)

theorem UnmapStep.rcuDefer (hs : UnmapStep h c h') (n : RcuNode) :
    UnmapStep (h.rcuDefer n) c (h'.rcuDefer n) := by
  cases hs with
  | none => exact .none
  | some ht k hlci hos husage hentry => exact .some ht k hlci hos husage hentry

theorem newTodo_mapFrame (h : Hype) : MapFrame h (newTodo h).2 where
  __ := MapFrame.refl h
  newLci := fun _ _ hnone hsome => absurd (hnone.symm.trans hsome) nofun
  newRes := fun _ _ hnone hsome => absurd (hnone.symm.trans hsome) nofun
  next := Nat.le_succ h.next
  pointed := fun _ hp => .inl hp.of_init

theorem newLci_mapFrame {lci : Lci} {parent : Option ResId} {t : MemType}
    (hlci : h.lci h.next = none) (hres : h.res h.next = none) :
    MapFrame h (newLci h lci parent (.mem t)).2 where
  __ := MapFrame.refl h
  lci := by
    intro d l hl
    have hd : d ≠ h.next := by
      rintro rfl
      cases hlci.symm.trans hl
    exact ⟨l, (update_of_ne hd ..).trans hl, .refl l⟩
  res := by
    intro q s hs
    have hq : q ≠ h.next := by
      rintro rfl
      cases hres.symm.trans hs
    exact ⟨s, (update_of_ne hq ..).trans hs, .refl s⟩
  newLci := by
    intro d l hnone hsome
    have hd : d = h.next := by
      by_contra hd
      cases hnone.symm.trans ((update_of_ne hd ..).symm.trans hsome)
    rw [hd]
    exact ⟨le_rfl, Nat.lt_succ_self _⟩
  newRes := by
    intro q s hnone hsome
    have hq : q = h.next := by
      by_contra hq
      cases hnone.symm.trans ((update_of_ne hq ..).symm.trans hsome)
    subst hq
    have hs := (update_self h.next _ h.res).symm.trans hsome
    rw [some.injEq] at hs
    subst hs
    exact ⟨⟨le_rfl, Nat.lt_succ_self _⟩, rfl, ⟨t, rfl⟩, isSome_of_eq_some (update_self ..)⟩
  next := Nat.le_succ h.next
  pointed := fun _ hp => .inl hp.of_init.of_init.of_init

theorem insertResource_ok (hx : insertResource h r o = .ok (rc, h')) :
    (rc = hRescinded ∧ h' = h) ∨ ∃ sr L, h.res r = some sr ∧ rc = (h.keys + 1).toInt ∧
      (∀ q, Pointed L q → Pointed h.dl q) ∧
      h' = (({ h with keys := h.keys + 1 } : Hype).setRes r
        { sr with srCookie := h.keys + 1, srOwner := some o }).setDl
          (L.insBefore (.osRes r) (.poResources o)) := by
  rw [insertResource_eq] at hx
  obtain ⟨sr, hsr, hx⟩ := of_live hx
  rcases hp : sr.srParent with _ | q
  · rw [hp] at hx
    cases hx
    exact .inr ⟨sr, h.dl, hsr, rfl, fun _ => id, by rw [hp]; rfl⟩
  rw [hp] at hx
  obtain ⟨parent, -, hx⟩ := of_seq hx
  split_ifs at hx
  · cases hx
    exact .inl ⟨rfl, rfl⟩
  cases hx
  refine .inr ⟨sr, h.dl.insBefore (.siblings r) (.children q), hsr, rfl, fun x hx => ?_,
    by rw [hp]; rfl⟩
  exact .of_insBefore DRef.noConfusion DRef.noConfusion hx

theorem insertResource_mapFrame (hsr : h.res r = some sr) (hmapped : sr.srMapped = false)
    (hq : .physMem r ∉ h.rcu) (hx : insertResource h r o = .ok (rc, h')) : MapFrame h h' := by
  rcases insertResource_ok hx with ⟨-, rfl⟩ | ⟨sr', L, hsr', -, hL, rfl⟩
  · exact .refl h'
  cases hsr.symm.trans hsr'
  have hkeys : MapFrame h { h with keys := h.keys + 1 } := { MapFrame.refl h with }
  have hown : sr.Keeps { sr with srCookie := h.keys + 1, srOwner := some o } :=
    ⟨rfl, rfl, fun hm => absurd (hmapped.symm.trans hm) nofun, id⟩
  refine (hkeys.trans (.setRes hsr hown)).trans (.setDl fun q hp => ?_)
  rcases eq_or_ne q r with rfl | hne
  · exact .inr ⟨_, update_self .., .inr hq⟩
  · exact .inl (hL q (hp.of_insBefore (fun he => hne (DRef.osRes.inj he).symm) DRef.noConfusion))

theorem detach_mapFrame (hsr : h.res r = some sr)
    (hres : sr.srRescinded = true) : MapFrame h (h.setDl (h.dl.detach (.osRes r))) := by
  refine .setDl fun q hp => ?_
  rcases eq_or_ne q r with rfl | hne
  · exact .inr ⟨sr, hsr, .inl hres⟩
  · exact .inl (hp.of_detach fun he => hne (DRef.osRes.inj he).symm)

theorem deathLoop_mapFrame {t : Nat} (fuel : Nat) (curr : DRef) (h : Hype)
    (hx : deathLoop o t fuel curr h = .ok h') : MapFrame h h' := by
  induction fuel generalizing curr h with
  | zero => cases hx
  | succ fuel ih =>
    unfold deathLoop at hx
    split_ifs at hx
    · cases hx
      exact .refl _
    split at hx
    · next r _ =>
      obtain ⟨sr, hsr, hx⟩ := of_live hx
      split_ifs at hx with hres
      · exact (detach_mapFrame hsr hres).trans (ih _ _ hx)
      obtain ⟨⟨rc, h1⟩, hmark, hx⟩ := of_seq hx
      have hnodes : ∀ q, DRef.todo t ≠ .osRes q := nofun
      have hframe := forcedRescindMark_frame hnodes hmark
      have hrescinded := forcedRescindMark_rescinds hnodes hmark
      -- the resource is taken from the list before it is marked
      have hfirst : MapFrame h h1 :=
        { MapFrame.of_mark hframe with
          pointed := by
            intro q hp
            rcases eq_or_ne q r with rfl | hne
            · obtain ⟨sr', hsr', hres'⟩ := hrescinded
              exact .inr ⟨sr', hsr', .inl hres'⟩
            · have hp := hframe.pointed q hp
              exact .inl (hp.of_detach fun he => hne (DRef.osRes.inj he).symm) }
      exact hfirst.trans (ih _ _ hx)
    · cases hx

theorem partitionDeathCleanup_mapFrame (hx : partitionDeathCleanup h o = .ok h') :
    MapFrame h h' := by
  obtain ⟨_, -, hx⟩ := of_seq hx
  obtain ⟨h1, hloop, hx⟩ := of_seq hx
  cases hx
  have hloop := deathLoop_mapFrame _ _ _ hloop
  exact ((newTodo_mapFrame h).trans hloop).trans
    (.rcuDefer nofun nofun)

theorem hRescindLogical_mapFrame {flags cookie : Uval} {ret : Option HcallRet}
    (hx : hRescindLogical h o flags cookie = .ok (ret, h')) : MapFrame h h' := by
  obtain ⟨⟨err, res⟩, -, hx⟩ := of_seq hx
  dsimp only at hx
  split_ifs at hx
  · cases hx
    exact .refl h
  obtain ⟨r, -, hx⟩ := of_seq hx
  obtain ⟨sr, -, hx⟩ := of_seq hx
  split_ifs at hx
  · cases hx
    exact .refl h
  obtain ⟨⟨rc, h1⟩, hmark, hx⟩ := of_seq hx
  have hmark := forcedRescindMark_frame (fun q => DRef.noConfusion) hmark
  have hframe := (newTodo_mapFrame h).trans (.of_mark hmark)
  split_ifs at hx
  · cases hx
    exact hframe
  · cases hx
    exact hframe.trans (.rcuDefer (fun _ => RcuNode.noConfusion) fun _ => RcuNode.noConfusion)

end

end Rhype
