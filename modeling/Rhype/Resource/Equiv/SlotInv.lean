import Rhype.Resource.Equiv.Accept
import Rhype.Resource.Equiv.MapFrame

/-!
# The invariant of the chunk tables

`SlotInv` relates the chunk table of every partition, its bitmap, and the chunks of the resources
that are mapped and not yet destroyed.  Such a chunk has exactly the slots of its address and its
size, or it lies in the page-share manager of its owner, whose own chunk has its slots.  A slot
refers to nothing else, and the bitmap has the bits of the slots in use.  What is queued to be
destroyed can no longer be found in the list of a partition, unless it is rescinded.

`Reslot` is a change of the slots of one chunk; `Reslot.table` and `Reslot.obj` reduce the invariant
to what is said about that chunk.
-/

namespace Rhype

/-- The resource is mapped by partition `o` and is not queued to be destroyed. -/
def Held (h : Hype) (o : OsId) (r : ResId) : Prop :=
  ∃ sr, h.res r = some sr ∧ sr.srMapped = true ∧ sr.srOwner = some o ∧ .physMem r ∉ h.rcu

/-- `c` is the chunk of a resource of partition `o`, or of its page-share manager. -/
def ChunkOf (h : Hype) (o : OsId) (os : Os) (c : LciId) : Prop := os.poPsm = some c ∨ Held h o c

/-- The chunk lies in the page-share manager `p` of the partition and has no slots of its own. -/
structure InManager (os : Os) (c : LciId) (lci : Lci) (p : LciId) (psmLci : Lci) : Prop where
  psm_eq : os.poPsm = some p
  lo : psmLci.lciLaddr.toNat ≤ lci.lciLaddr.toNat
  hi : lci.lciLaddr.toNat + lci.lciSize.toNat ≤ psmLci.lciLaddr.toNat + psmLci.lciSize.toNat
  unslotted : ∀ i, os.pLci i ≠ some c

/-- The chunk has its place: a run of slots, or a part of the page-share manager. -/
def Placed (h : Hype) (os : Os) (c : LciId) (lci : Lci) : Prop :=
  HasRun os c lci ∨ ∃ p psmLci, h.lci p = some psmLci ∧ InManager os c lci p psmLci

/-- The chunk tables. -/
structure TableInv (h : Hype) : Prop where
  slot : ∀ o os i c, h.os o = some os → os.pLci i = some c →
    i < maxLogicalMemChunks ∧ ChunkOf h o os c
  held : ∀ o os r, h.os o = some os → Held h o r → ∃ lci, h.lci r = some lci ∧
    lci.lciOs = some o ∧ Placed h os r lci
  psm : ∀ o os p, h.os o = some os → os.poPsm = some p → h.res p = none ∧ ∃ lci,
    h.lci p = some lci ∧ lci.lciOs = some o ∧ lci.lciSize.toNat = 2 ^ 30 ∧ HasRun os p lci
  usage : ∀ o os i, h.os o = some os → i < maxLogicalMemChunks →
    (os.chunkUsage.bit i = true ↔ os.pLci i ≠ none)

/-- The objects, and those that are queued to be destroyed. -/
structure ObjInv (h : Hype) : Prop where
  fresh : ∀ n, h.next ≤ n → h.lci n = none ∧ h.res n = none ∧ ¬ Pointed h.dl n
  mem : ∀ r sr, h.res r = some sr → (∃ t, sr.srType = .mem t) ∧ (h.lci r).isSome = true
  queued : ∀ r, .physMem r ∈ h.rcu → r < h.next ∧
    (∀ o os, h.os o = some os → os.poPsm ≠ some r) ∧
    ∀ sr, h.res r = some sr → sr.srRescinded = true ∨ ¬ Pointed h.dl r
  queuedPsm : ∀ p, .psm p ∈ h.rcu → p < h.next ∧ h.res p = none ∧
    ∀ o os, h.os o = some os → os.poPsm ≠ some p

/-- The invariant. -/
structure SlotInv (h : Hype) : Prop extends TableInv h, ObjInv h

/-! ### The frame -/

variable {lci lci' : Lci} {p : LciId}

theorem Lci.SamePlace.inRun (hp : lci.SamePlace lci') (i : Nat) : InRun lci' i ↔ InRun lci i := by
  unfold InRun
  rw [hp.laddr, hp.size]

section

variable {h h' : Hype} {r : ResId} {c : LciId}

theorem MapFrame.res_cases (hf : MapFrame h h') {sr' : SysResource}
    (hsr' : h'.res r = some sr') : h.res r = none ∨ ∃ sr, h.res r = some sr ∧ sr.Keeps sr' := by
  cases hsr : h.res r with
  | none => exact .inl rfl
  | some sr =>
    obtain ⟨_, hsr'', hk⟩ := hf.res r sr hsr
    cases hsr''.symm.trans hsr'
    exact .inr ⟨sr, rfl, hk⟩

theorem MapFrame.res_none (hf : MapFrame h h') (hres : h.res r = none)
    (hlt : r < h.next) : h'.res r = none := by
  cases hres' : h'.res r with
  | none => rfl
  | some sr' => exact absurd (hf.newRes r sr' hres hres').1.1 hlt.not_ge

theorem MapFrame.held_iff (hf : MapFrame h h') {o : OsId} : Held h' o r ↔ Held h o r := by
  constructor
  · rintro ⟨sr', hsr', hmapped, howner, hq⟩
    rcases hf.res_cases hsr' with hnone | ⟨sr, hsr, hk⟩
    · have hnew := (hf.newRes r sr' hnone hsr').2.1
      cases hnew.symm.trans hmapped
    · have hmapped' := hk.mapped.symm.trans hmapped
      exact ⟨sr, hsr, hmapped', (hk.owner hmapped').symm.trans howner,
        fun hin => hq ((hf.physMem r).2 hin)⟩
  · rintro ⟨sr, hsr, hmapped, howner, hq⟩
    obtain ⟨sr', hsr', hk⟩ := hf.res r sr hsr
    exact ⟨sr', hsr', hk.mapped.trans hmapped, (hk.owner hmapped).trans howner,
      fun hin => hq ((hf.physMem r).1 hin)⟩

theorem HasRun.congr {os os' : Os} (hr : HasRun os c lci)
    (hm : os.SameMap os') (hp : lci.SamePlace lci') : HasRun os' c lci' := by
  intro i
  rw [hm.pLci, hp.inRun, hr i]

theorem Placed.frame {os os' : Os} (hplace : Placed h os c lci) (hf : MapFrame h h')
    (hm : os.SameMap os') (hp : lci.SamePlace lci') : Placed h' os' c lci' := by
  rcases hplace with hrun | ⟨p, psmLci, hpsmLci, hman⟩
  · exact .inl (hrun.congr hm hp)
  obtain ⟨psmLci', hpsmLci', hpp⟩ := hf.lci p psmLci hpsmLci
  refine .inr ⟨p, psmLci', hpsmLci', hm.psm.trans hman.psm_eq, ?_, ?_, ?_⟩
  · rw [hpp.laddr, hp.laddr]
    exact hman.lo
  · rw [hpp.laddr, hpp.size, hp.laddr, hp.size]
    exact hman.hi
  · rw [hm.pLci]
    exact hman.unslotted

theorem ObjInv.lci_lt (hi : ObjInv h) (hlci : h.lci c = some lci) : c < h.next := by
  by_contra hge
  cases hlci.symm.trans (hi.fresh c (not_lt.1 hge)).1

theorem SlotInv.tableFrame (hi : SlotInv h) (hf : MapFrame h h') : TableInv h' where
  slot := by
    intro o os' i c hos' hslot
    obtain ⟨os, hos, hm⟩ := rel_some_right (hf.os o) hos'
    rw [hm.pLci] at hslot
    obtain ⟨hlt, hc⟩ := hi.slot o os i c hos hslot
    exact ⟨hlt, hc.imp hm.psm.trans hf.held_iff.2⟩
  held := by
    intro o os' r hos' hheld
    obtain ⟨os, hos, hm⟩ := rel_some_right (hf.os o) hos'
    obtain ⟨lci, hlci, hown, hplace⟩ := hi.held o os r hos (hf.held_iff.1 hheld)
    obtain ⟨lci', hlci', hp⟩ := hf.lci r lci hlci
    exact ⟨lci', hlci', hp.os.trans hown, hplace.frame hf hm hp⟩
  psm := by
    intro o os' p hos' hp
    obtain ⟨os, hos, hm⟩ := rel_some_right (hf.os o) hos'
    obtain ⟨hres, lci, hlci, hown, hsize, hrun⟩ := hi.psm o os p hos (hm.psm.symm.trans hp)
    obtain ⟨lci', hlci', hplace⟩ := hf.lci p lci hlci
    exact ⟨hf.res_none hres (hi.lci_lt hlci), lci', hlci', hplace.os.trans hown,
      hplace.size ▸ hsize, hrun.congr hm hplace⟩
  usage := by
    intro o os' i hos' hlt
    obtain ⟨os, hos, hm⟩ := rel_some_right (hf.os o) hos'
    rw [hm.usage, hm.pLci]
    exact hi.usage o os i hos hlt

theorem ObjInv.frame (hi : ObjInv h) (hf : MapFrame h h') : ObjInv h' where
  fresh := by
    intro n hn
    have hold := hi.fresh n (hf.next.trans hn)
    refine ⟨?_, ?_, fun hp => ?_⟩
    · cases hlci' : h'.lci n with
      | none => rfl
      | some lci' => exact absurd (hf.newLci n lci' hold.1 hlci').2 hn.not_gt
    · cases hres' : h'.res n with
      | none => rfl
      | some sr' => exact absurd (hf.newRes n sr' hold.2.1 hres').1.2 hn.not_gt
    · rcases hf.pointed n hp with hp | ⟨sr', hsr', -⟩
      · exact hold.2.2 hp
      · exact absurd (hf.newRes n sr' hold.2.1 hsr').1.2 hn.not_gt
  mem := by
    intro r sr' hsr'
    rcases hf.res_cases hsr' with hnone | ⟨sr, hsr, hk⟩
    · exact (hf.newRes r sr' hnone hsr').2.2
    obtain ⟨⟨t, ht⟩, hlci⟩ := hi.mem r sr hsr
    obtain ⟨lci, hlci⟩ := Option.isSome_iff_exists.1 hlci
    obtain ⟨lci', hlci', -⟩ := hf.lci r lci hlci
    exact ⟨⟨t, hk.type.trans ht⟩, Option.isSome_of_eq_some hlci'⟩
  queued := by
    intro r hq'
    obtain ⟨hlt, hpsm, hres⟩ := hi.queued r ((hf.physMem r).1 hq')
    refine ⟨hlt.trans_le hf.next, fun o os' hos' => ?_, fun sr' hsr' => ?_⟩
    · obtain ⟨os, hos, hm⟩ := rel_some_right (hf.os o) hos'
      rw [hm.psm]
      exact hpsm o os hos
    · rcases hf.res_cases hsr' with hnone | ⟨sr, hsr, hk⟩
      · exact absurd (hf.newRes r sr' hnone hsr').1.1 hlt.not_ge
      rcases hres sr hsr with hre | hnp
      · exact .inl (hk.rescinded hre)
      -- a cell that was linked by the change has a reason to be linked
      by_cases hp : Pointed h'.dl r
      · rcases hf.pointed r hp with hp | ⟨_, hsr'', hre | hnq⟩
        · exact absurd hp hnp
        · cases hsr''.symm.trans hsr'
          exact .inl hre
        · exact absurd hq' hnq
      · exact .inr hp
  queuedPsm := by
    intro p hq'
    obtain ⟨hlt, hres, hpsm⟩ := hi.queuedPsm p ((hf.psm p).1 hq')
    refine ⟨hlt.trans_le hf.next, hf.res_none hres hlt, fun o os' hos' => ?_⟩
    obtain ⟨os, hos, hm⟩ := rel_some_right (hf.os o) hos'
    rw [hm.psm]
    exact hpsm o os hos

theorem SlotInv.frame (hi : SlotInv h) (hf : MapFrame h h') : SlotInv h' :=
  { hi.tableFrame hf, hi.toObjInv.frame hf with }

end

/-! ### Changes of the slots of one chunk -/

/-- Only the slots of the chunk `c` in the table of partition `o` change, with `c` itself. -/
structure Reslot (h h' : Hype) (o : OsId) (os os' : Os) (c : LciId) : Prop where
  os_eq : h.os o = some os
  os_eq' : h'.os = Function.update h.os o (some os')
  lci : ∀ d, d ≠ c → h'.lci d = h.lci d
  res : ∀ d, d ≠ c → h'.res d = h.res d
  physMem : ∀ d, d ≠ c → (.physMem d ∈ h'.rcu ↔ .physMem d ∈ h.rcu)
  slots : ∀ j d, d ≠ c → (os'.pLci j = some d ↔ os.pLci j = some d)
  psm : ∀ p, p ≠ c → (os'.poPsm = some p ↔ os.poPsm = some p)
  usage : ∀ j, j < maxLogicalMemChunks → (os'.chunkUsage.bit j = true ↔ os'.pLci j ≠ none)
  notPsm : ∀ o' os0, h.os o' = some os0 → os0.poPsm ≠ some c
  elsewhere : ∀ o' os0 j, o' ≠ o → h.os o' = some os0 → os0.pLci j ≠ some c

namespace Reslot

variable {h h' : Hype} {o o' : OsId} {os os' : Os} {c d : LciId}

section

variable (hr : Reslot h h' o os os' c)
include hr

theorem held_iff {d : ResId} (hd : d ≠ c) : Held h' o' d ↔ Held h o' d := by
  unfold Held
  rw [hr.res d hd, hr.physMem d hd]

theorem os_cases {os1 : Os} (hos1 : h'.os o' = some os1) :
    (o' = o ∧ os1 = os') ∨ o' ≠ o ∧ h.os o' = some os1 := by
  rw [hr.os_eq'] at hos1
  rcases eq_or_ne o' o with rfl | hne
  · rw [Function.update_self, Option.some.injEq] at hos1
    exact .inl ⟨rfl, hos1.symm⟩
  · rw [Function.update_of_ne hne] at hos1
    exact .inr ⟨hne, hos1⟩

theorem hasRun (hd : d ≠ c) (hrun : HasRun os d lci) : HasRun os' d lci :=
  fun j => (hr.slots j d hd).trans (hrun j)

theorem place (hd : d ≠ c) (hplace : Placed h os d lci) : Placed h' os' d lci := by
  rcases hplace with hrun | ⟨p, psmLci, hpsmLci, hman⟩
  · exact .inl (hr.hasRun hd hrun)
  · have hp : p ≠ c := fun hp => hr.notPsm o os hr.os_eq (hp ▸ hman.psm_eq)
    exact .inr ⟨p, psmLci, (hr.lci p hp).trans hpsmLci, (hr.psm p hp).2 hman.psm_eq, hman.lo,
      hman.hi, fun j hj => hman.unslotted j ((hr.slots j d hd).1 hj)⟩

theorem table (ht : TableInv h)
    (hslot : ∀ j, os'.pLci j = some c → j < maxLogicalMemChunks ∧ ChunkOf h' o os' c)
    (hheld : ∀ o', Held h' o' c → o' = o ∧ ∃ lci, h'.lci c = some lci ∧ lci.lciOs = some o ∧
      Placed h' os' c lci)
    (hpsm : os'.poPsm = some c → h'.res c = none ∧ ∃ lci, h'.lci c = some lci ∧
      lci.lciOs = some o ∧ lci.lciSize.toNat = 2 ^ 30 ∧ HasRun os' c lci) :
    TableInv h' where
  slot := by
    intro o' os1 j d hos1 hd
    rcases hr.os_cases hos1 with ⟨rfl, rfl⟩ | ⟨hne, hold⟩
    · rcases eq_or_ne d c with rfl | hdc
      · exact hslot j hd
      · obtain ⟨hlt, hchunk⟩ := ht.slot o' os j d hr.os_eq ((hr.slots j d hdc).1 hd)
        exact ⟨hlt, hchunk.imp (hr.psm d hdc).2 (hr.held_iff hdc).2⟩
    · have hdc : d ≠ c := fun hdc => hr.elsewhere o' os1 j hne hold (hdc ▸ hd)
      obtain ⟨hlt, hchunk⟩ := ht.slot o' os1 j d hold hd
      exact ⟨hlt, hchunk.imp_right (hr.held_iff hdc).2⟩
  held := by
    intro o' os1 d hos1 hd
    rcases eq_or_ne d c with rfl | hdc
    · obtain ⟨rfl, lci, hlci, hown, hplace⟩ := hheld o' hd
      rcases hr.os_cases hos1 with ⟨-, rfl⟩ | ⟨hne, -⟩
      · exact ⟨lci, hlci, hown, hplace⟩
      · exact absurd rfl hne
    rw [hr.lci d hdc]
    have hd := (hr.held_iff hdc).1 hd
    rcases hr.os_cases hos1 with ⟨rfl, rfl⟩ | ⟨hne, hold⟩
    · obtain ⟨lci, hlci, hown, hplace⟩ := ht.held o' os d hr.os_eq hd
      exact ⟨lci, hlci, hown, hr.place hdc hplace⟩
    obtain ⟨lci, hlci, hown, hplace⟩ := ht.held o' os1 d hold hd
    refine ⟨lci, hlci, hown,
      hplace.imp_right fun ⟨p, psmLci, hpsmLci, hman⟩ => ⟨p, psmLci, ?_, hman⟩⟩
    have hp : p ≠ c := fun hp => hr.notPsm o' os1 hold (hp ▸ hman.psm_eq)
    exact (hr.lci p hp).trans hpsmLci
  psm := by
    intro o' os1 p hos1 hp
    rcases hr.os_cases hos1 with ⟨rfl, rfl⟩ | ⟨hne, hold⟩
    · rcases eq_or_ne p c with rfl | hpc
      · exact hpsm hp
      · obtain ⟨hres, lci, hlci, hown, hsize, hrun⟩ :=
          ht.psm o' os p hr.os_eq ((hr.psm p hpc).1 hp)
        exact ⟨(hr.res p hpc).trans hres, lci, (hr.lci p hpc).trans hlci, hown, hsize,
          hr.hasRun hpc hrun⟩
    · have hpc : p ≠ c := fun hpc => hr.notPsm o' os1 hold (hpc ▸ hp)
      rw [hr.res p hpc, hr.lci p hpc]
      exact ht.psm o' os1 p hold hp
  usage := by
    intro o' os1 j hos1 hj
    rcases hr.os_cases hos1 with ⟨rfl, rfl⟩ | ⟨hne, hold⟩
    · exact hr.usage j hj
    · exact ht.usage o' os1 j hold hj

theorem psm_ne (hpc : p ≠ c) (hold : ∀ o' os0, h.os o' = some os0 → os0.poPsm ≠ some p)
    (o' : OsId) (os1 : Os) (hos1 : h'.os o' = some os1) : os1.poPsm ≠ some p := by
  rcases hr.os_cases hos1 with ⟨rfl, rfl⟩ | ⟨-, hos0⟩
  · exact fun hp => hold o' os hr.os_eq ((hr.psm p hpc).1 hp)
  · exact hold o' os1 hos0

theorem obj (ho : ObjInv h) (hdl : h'.dl = h.dl) (hnext : h.next ≤ h'.next) (hc : c < h'.next)
    (hmem : ∀ sr, h'.res c = some sr → (∃ t, sr.srType = .mem t) ∧ (h'.lci c).isSome = true)
    (hpsm : ∀ p, .psm p ∈ h'.rcu ↔ .psm p ∈ h.rcu) (hnot : .psm c ∉ h.rcu)
    (hq : .physMem c ∈ h'.rcu → os'.poPsm ≠ some c ∧ ∀ sr, h'.res c = some sr →
      sr.srRescinded = true ∨ ¬ Pointed h.dl c) :
    ObjInv h' where
  fresh := by
    intro n hn
    have hnc : n ≠ c := by
      rintro rfl
      exact absurd hc hn.not_gt
    rw [hr.lci n hnc, hr.res n hnc, hdl]
    exact ho.fresh n (hnext.trans hn)
  mem := by
    intro r sr hsr
    rcases eq_or_ne r c with rfl | hrc
    · exact hmem sr hsr
    · rw [hr.res r hrc] at hsr
      rw [hr.lci r hrc]
      exact ho.mem r sr hsr
  queued := by
    intro r hin
    rcases eq_or_ne r c with rfl | hrc
    · obtain ⟨hne, hres⟩ := hq hin
      refine ⟨hc, fun o' os1 hos1 => ?_, hdl ▸ hres⟩
      rcases hr.os_cases hos1 with ⟨-, rfl⟩ | ⟨-, hold⟩
      · exact hne
      · exact hr.notPsm o' os1 hold
    · obtain ⟨hlt, hne, hres⟩ := ho.queued r ((hr.physMem r hrc).1 hin)
      rw [hr.res r hrc, hdl]
      exact ⟨hlt.trans_le hnext, hr.psm_ne hrc hne, hres⟩
  queuedPsm := by
    intro p hin
    have hin := (hpsm p).1 hin
    have hpc : p ≠ c := fun hpc => hnot (hpc ▸ hin)
    obtain ⟨hlt, hres, hne⟩ := ho.queuedPsm p hin
    exact ⟨hlt.trans_le hnext, (hr.res p hpc).trans hres, hr.psm_ne hpc hne⟩

end

end Reslot

/-! ### Resources in slots -/

section

variable {h : Hype} {r : ResId} {sr : SysResource} {o : OsId} {os : Os}

section

variable (hi : SlotInv h) (hsr : h.res r = some sr)
include hi hsr

theorem SlotInv.psm_ne (o : OsId) (os : Os) (hos : h.os o = some os) :
    os.poPsm ≠ some r := fun hp =>
  absurd (hsr.symm.trans (hi.psm o os r hos hp).1) nofun

theorem SlotInv.slot_held {i : Nat} (hos : h.os o = some os) (hslot : os.pLci i = some r) :
    i < maxLogicalMemChunks ∧ Held h o r ∧ ∃ lci, h.lci r = some lci ∧ lci.lciOs = some o ∧
      HasRun os r lci := by
  obtain ⟨hlt, hp | hheld⟩ := hi.slot o os i r hos hslot
  · exact absurd hp (hi.psm_ne hsr o os hos)
  obtain ⟨lci, hlci, hown, hrun | ⟨p, psmLci, -, hman⟩⟩ := hi.held o os r hos hheld
  · exact ⟨hlt, hheld, lci, hlci, hown, hrun⟩
  · exact absurd hslot (hman.unslotted i)

theorem SlotInv.lt_next : r < h.next := by
  by_contra hge
  cases hsr.symm.trans (hi.fresh r (not_lt.1 hge)).2.1

theorem SlotInv.not_psm_queued :
    .psm r ∉ h.rcu := fun hin =>
  absurd (hsr.symm.trans (hi.queuedPsm r hin).2.1) nofun

theorem SlotInv.elsewhere (hlci : h.lci r = some lci) (hown : lci.lciOs = some o) (o' : OsId)
    (os0 : Os) (j : Nat) (hne : o' ≠ o) (hos0 : h.os o' = some os0) : os0.pLci j ≠ some r := by
  intro hslot
  obtain ⟨-, -, lci', hlci', hown', -⟩ := hi.slot_held hsr hos0 hslot
  cases hlci.symm.trans hlci'
  exact hne (Option.some.inj (hown'.symm.trans hown))

end

theorem SlotInv.psm_laddr (hi : SlotInv h) (hos : h.os o = some os)
    (hsize : lci.lciSize.toNat = 2 ^ 30) (hrun : HasRun os p lci) :
    lci.lciLaddr.toNat < 2 ^ 35 := by
  have hfirst : InRun lci (lci.lciLaddr.toNat / 2 ^ 26) := by
    refine ⟨le_rfl, ?_⟩
    omega
  have hlt := (hi.slot o os _ p hos ((hrun _).2 hfirst)).1
  unfold maxLogicalMemChunks at hlt
  omega

end

end Rhype
