import Rhype.Htab.Equiv.Unmap
import Rhype.Resource.Equiv.Accept
import Rhype.Resource.Equiv.Cleanup
import Rhype.Resource.Equiv.Frame

/-!
# Memory in the page-share manager after a rescind

A chunk that is accepted into the page-share manager takes a run of pages: their entries, and their
bits in the bitmap of the manager.  The cleanup of a rescind is to undo this (`Released`).  But
nothing ever clears a bit of the bitmap again (`Hype.usage`), so no chunk that was accepted is ever
released completely, while `detach_lci` does free the slots of a chunk outside the manager.
-/

namespace Rhype

/-! ### The hash table calls -/

section

variable {h h' : Hype} {c : LciId} {laddr : Uval} {i : Nat} {o : OsId}

theorem addPtecount_usage {n : BitVec 32} (hx : addPtecount h c n = .ok h') :
    h'.usage = h.usage := by
  obtain ⟨_, -, rfl⟩ := addPtecount_ok hx
  rfl

theorem Recorded.usage {d : BitVec 32} {lci real : Lci} {psm : Psm} {ht : HashTable Nat} {n : LciId}
    (hr : Recorded h c laddr d lci psm ht n real h') : h'.usage = h.usage := by
  rw [hr.state]
  have huse : ({ psm with psmPteHt := ht } : Psm).psmUsage = psm.psmUsage := rfl
  exact usage_setPsm hr.psm_eq huse

theorem amoSavPtep_usage (hx : amoSavPtep h c laddr i = .ok h') : h'.usage = h.usage := by
  rcases amoSavPtep_ok hx with rfl | ⟨_, _, _, _, hr⟩
  · rfl
  · exact hr.usage

theorem amoRemPtep_usage (hx : amoRemPtep h c laddr i = .ok h') : h'.usage = h.usage := by
  rcases amoRemPtep_ok hx with rfl | ⟨_, _, _, _, hr⟩
  · rfl
  · exact hr.usage

theorem exec_usage {call : HtabCall} {ret : HcallRet} (hx : exec h o call = .ok (ret, h')) :
    h'.usage = h.usage := by
  cases call with
  | enter flags ptex vsidWord rpnWord =>
    rcases hEnter_ok hx with ⟨-, rfl⟩ | ⟨os, pgshift, lpbits, c, raddr, j, h1, st⟩
    · rfl
    · have hadd := addPtecount_usage st.add
      have hsav := amoSavPtep_usage st.sav
      exact hadd.trans hsav
  | remove flags ptex avpn =>
    rcases hRemove_ok hx with rfl | ⟨os, h1, -, -, rfl, ⟨-, rfl⟩ | ⟨-, c, h2, -, hrem, hadd⟩⟩
    · rfl
    · rfl
    · exact (addPtecount_usage hadd).trans (amoRemPtep_usage hrem)
  | read flags ptex =>
    rw [hRead_ok hx]
  | protect flags ptex avpn =>
    rcases hProtect_ok hx with rfl | ⟨os, -, -, -, rfl⟩ <;> rfl
  | clearMod flags ptex =>
    rw [exec] at hx
    rcases hClearMod_ok hx with rfl | ⟨os, -, -, -, rfl⟩ <;> rfl
  | clearRef flags ptex =>
    rw [exec] at hx
    rcases hClearRef_ok hx with rfl | ⟨os, -, -, rfl⟩ <;> rfl

theorem htabRun_usage {calls : List (OsId × HtabCall)}
    (hrun : Run htabStep (fun _ _ => True) h calls h') : h'.usage = h.usage := by
  have htrans : ∀ s t u : Hype, t.usage = s.usage → u.usage = t.usage → u.usage = s.usage :=
    fun _ _ _ hst htu => htu.trans hst
  refine hrun.related (R := fun s t => t.usage = s.usage) (fun _ => rfl) htrans
    fun s a t _ hstep => ?_
  obtain ⟨⟨ret, t'⟩, hexec, hstep⟩ := of_seq hstep
  cases hstep
  exact exec_usage hexec

/-! ### The cleanup -/

variable {r : ResId}

theorem UnmapStep.usage (hs : UnmapStep h c h') : h'.usage = h.usage := by
  cases hs with
  | none => rfl
  | some _ _ _ _ husage => exact husage

theorem DetachedBy.usage (hd : DetachedBy h r h') : h'.usage = h.usage := by
  obtain ⟨rc, h1, hdet, hun⟩ := hd
  rw [hun.usage]
  rcases detachLci_ok hdet with ⟨rfl, -⟩ | ⟨_, _, _, _, _, _, hstep⟩
  · rfl
  · rw [hstep.state]
    rfl

theorem returnFn_usage {type : ResType} (hx : returnFn h type r = .ok h') : h'.usage = h.usage := by
  cases type with
  | mem t =>
    rcases returnFn_ok hx with hdet | ⟨-, hun⟩
    · exact hdet.usage
    · exact hun.usage
  | intrSrc =>
    cases hx
    rfl

theorem cleanupRes_usage (hx : cleanupRes h r = .ok h') : h'.usage = h.usage := by
  obtain ⟨sr, h1, h2, hs⟩ := cleanupRes_ok hx
  have hret : h1.usage = h.usage := by
    rcases hs.returned with ⟨-, rfl⟩ | ⟨-, hret⟩
    · rfl
    · have husage := returnFn_usage hret
      exact husage
  have hdes : h2.usage = h1.usage := by
    rcases rescindFn_ok hs.destroyed with ⟨rfl, -⟩ | rfl <;> rfl
  rw [hs.state]
  exact hdes.trans hret

theorem forcedRescindCleanup_usage {nodes : DRef} (hx : forcedRescindCleanup h nodes = .ok h') :
    h'.usage = h.usage :=
  cleanupLoop_induct (fun _ _ _ hP hres => (cleanupRes_usage hres).trans hP) _ _ h rfl hx

/-! ### Accepting into the page-share manager -/

/-- The resource `r` of partition `o` is in the page-share manager `p`, in the pages from `idx`
on. -/
structure InPsm (h : Hype) (o : OsId) (p : LciId) (r : ResId) (psm : Psm) (lci : Lci) (idx : Nat) :
    Prop where
  os : ∃ os, h.os o = some os ∧ os.poPsm = some p
  psm_eq : h.psm p = some psm
  lci_eq : h.lci r = some lci
  pos : 0 < (pgnums lci.lciSize).toNat
  entries : ∀ i, idx ≤ i → i < idx + (pgnums lci.lciSize).toNat → psm.psmEntries i = some r
  usage : ∀ i, idx ≤ i → i < idx + (pgnums lci.lciSize).toNat → psm.psmUsage.bit i = true

variable {p : LciId} {r : ResId} {sr : SysResource} {lci : Lci} {fresh : FreshPsm} {a : Uval}
  {vio : Sval × Uval}

theorem acceptLockedResource_inPsm (hsr : h.res r = some sr) (htype : sr.srType = .mem .memAddr)
    (hlci : h.lci r = some lci) (hown : ownSlots lci = false)
    (hx : acceptLockedResource h r fresh vio = .ok (hSuccess, a, h')) :
    ∃ o p psm lci idx, sr.srOwner = some o ∧ InPsm h' o p r psm lci idx := by
  obtain ⟨sr', h1, hsr', haccept, ⟨hne, -⟩ | ⟨-, sr1, -, hmapped⟩⟩ := acceptLockedResource_ok hx
  · exact absurd rfl hne
  cases hsr.symm.trans hsr'
  rw [htype] at haccept
  obtain ⟨sr', o, lci', hsr', ho, hlci', -, ⟨hown', -⟩ | ⟨-, p, h2, h3, hinit, hpsm, hrest⟩⟩ :=
    memAccept_ok haccept
  · cases hlci.symm.trans hlci'
    rw [hown] at hown'
    cases hown'
  cases hsr.symm.trans hsr'
  obtain ⟨os, hos, hp⟩ := initOsPsm_poPsm hinit
  rcases psmAccept_ok hpsm with ⟨hne, -⟩ | ⟨-, psm, psmLci, lci2, idx, psm', hstep⟩
  · exact absurd rfl hne
  rcases hrest with ⟨hne, -⟩ | ⟨-, hen⟩
  · exact absurd rfl hne
  obtain ⟨lci3, hlci3, hen⟩ := lciEnable_ok hen
  rw [hstep.state] at hlci3 hen
  cases (Function.update_self r _ _).symm.trans hlci3
  rw [hmapped, hen]
  refine ⟨o, p, psm', _, idx, ho, ⟨os, hos, hp⟩, Function.update_self .., Function.update_self ..,
    hstep.pos, fun i hlo hhi => ?_, fun i hlo hhi => ?_⟩
  · rw [hstep.entries, if_pos ⟨hlo, hhi⟩]
  · rw [hstep.usage, if_pos ⟨hlo, hhi⟩]

end

/-! ### After a rescind -/

/-- Nothing is left of the chunk that partition `o` had in the pages from `idx` on of its page-share
manager `p`. -/
structure Released (h : Hype) (o : OsId) (p : LciId) (lci : Lci) (idx : Nat) : Prop where
  untranslated : ∀ a pa, InLogical lci a → logicalToPhysicalAddress h o a 1 = .ok pa →
    pa = invalidPhysicalAddress
  entries : ∀ psm i, h.psm p = some psm → idx ≤ i → i < idx + (pgnums lci.lciSize).toNat →
    psm.psmEntries i = none
  usage : ∀ psm i, h.psm p = some psm → idx ≤ i → i < idx + (pgnums lci.lciSize).toNat →
    psm.psmUsage.bit i = false
  ptes : ∀ os i, h.os o = some os → ¬ MapsChunk os lci i

section

variable {h0 h1 h2 h3 h4 h5 : Hype} {r : ResId} {sr : SysResource} {lci0 : Lci} {fresh : FreshPsm}
  {a : Uval} {vio : Sval × Uval} {avoid : Option OsId} {calls calls' : List (OsId × HtabCall)}

theorem rescind_usage (hrun : Run htabStep (fun _ _ => True) h1 calls h2)
    (hmark : forcedRescindMark (newTodo h2).2 r (.todo (newTodo h2).1) avoid = .ok (0, h3))
    (hrun' : Run htabStep (fun _ _ => True) h3 calls' h4)
    (hclean : forcedRescindCleanup h4 (.todo (newTodo h2).1) = .ok h5) : h5.usage = h1.usage := by
  have hframe : MarkFrame (newTodo h2).2 h3 :=
    forcedRescindMark_frame (by intro q hq; cases hq) hmark
  have hmark : h3.usage = h2.usage := by
    unfold Hype.usage
    rw [hframe.psm]
    rfl
  rw [forcedRescindCleanup_usage hclean, htabRun_usage hrun', hmark, htabRun_usage hrun]

theorem InPsm.not_released {o : OsId} {p : LciId} {psm : Psm} {lci : Lci} {idx : Nat}
    (hin : InPsm h1 o p r psm lci idx) (husage : h5.usage = h1.usage) :
    ¬ Released h5 o p lci idx := by
  intro hrel
  have husage : h5.usage p = some psm.psmUsage := by
    rw [husage, Hype.usage, hin.psm_eq, Option.map_some]
  obtain ⟨psm', hpsm', huse⟩ := Option.map_eq_some_iff.1 husage
  have hpos := hin.pos
  -- the bit of the first page is still set
  have hbit := hrel.usage psm' idx hpsm' le_rfl (by omega)
  rw [huse, hin.usage idx le_rfl (by omega)] at hbit
  cases hbit

/-- **No chunk is released from the page-share manager**: for every resource accepted into it, and
whatever is entered in the hash tables before the two phases of its rescind. -/
theorem psm_never_released (hsr : h0.res r = some sr) (htype : sr.srType = .mem .memAddr)
    (hlci : h0.lci r = some lci0) (hown : ownSlots lci0 = false)
    (haccept : acceptLockedResource h0 r fresh vio = .ok (hSuccess, a, h1))
    (hrun : Run htabStep (fun _ _ => True) h1 calls h2)
    (hmark : forcedRescindMark (newTodo h2).2 r (.todo (newTodo h2).1) avoid = .ok (0, h3))
    (hrun' : Run htabStep (fun _ _ => True) h3 calls' h4)
    (hclean : forcedRescindCleanup h4 (.todo (newTodo h2).1) = .ok h5) :
    ∃ o p psm lci idx, sr.srOwner = some o ∧ InPsm h1 o p r psm lci idx ∧
      ¬ Released h5 o p lci idx := by
  obtain ⟨o, p, psm, lci, idx, ho, hin⟩ :=
    acceptLockedResource_inPsm hsr htype hlci hown haccept
  exact ⟨o, p, psm, lci, idx, ho, hin, hin.not_released (rescind_usage hrun hmark hrun' hclean)⟩

end

/-- A page is granted to partition `1`, accepted through its page-share manager and rescinded again,
with no entry in between. -/
structure PageRescinded (h0 h1 h3 h5 : Hype) (sr : SysResource) (lci0 : Lci) : Prop where
  run : Run step (fun _ _ => True) twoPartitions
    [.define 0 .memAddr 0x10000000 0x4000000 clearedPsm, .grant 0 .memAddr 0x1000 0x1000 1] h0
  sr_eq : h0.res 1 = some sr
  type : sr.srType = .mem .memAddr
  lci_eq : h0.lci 1 = some lci0
  own : ownSlots lci0 = false
  accept : acceptLockedResource h0 1 clearedPsm (0, 0) = .ok (hSuccess, 0, h1)
  mark : forcedRescindMark (newTodo h1).2 1 (.todo (newTodo h1).1) none = .ok (0, h3)
  clean : forcedRescindCleanup h3 (.todo (newTodo h1).1) = .ok h5

theorem pageRescinded_translates : ∃ h0 h1 h3 h5 sr lci0, PageRescinded h0 h1 h3 h5 sr lci0 ∧
    sr.srOwner = some 1 ∧
    h1.lci 1 = some ⟨0x10001000, 0, 0x1000, 0, false, .physMem, some 1⟩ ∧
    logicalToPhysicalAddress h5 1 0 1 = .ok 0x10001000 :=
  ⟨_, _, _, _, _, _, ⟨.cons trivial rfl (.cons trivial rfl (.nil _)), rfl, rfl, rfl, rfl, rfl, rfl,
    rfl⟩, rfl, rfl, rfl⟩

/-- `psm_never_released` for that page. -/
theorem psm_never_released_page :
    ∃ h0 h1 h3 h5 sr lci0, PageRescinded h0 h1 h3 h5 sr lci0 ∧
      ∃ o p psm lci idx, sr.srOwner = some o ∧ InPsm h1 o p 1 psm lci idx ∧
        ¬ Released h5 o p lci idx := by
  obtain ⟨h0, h1, h3, h5, sr, lci0, hp, -⟩ := pageRescinded_translates
  exact ⟨h0, h1, h3, h5, sr, lci0, hp, psm_never_released hp.sr_eq hp.type hp.lci_eq hp.own
    hp.accept (.nil _) hp.mark (.nil _) hp.clean⟩

/-- That page is not released: its address translates. -/
theorem rescinded_page_translates :
    ¬ ∀ h0 h1 h2 h3 h4 h5 r sr lci0 fresh vio a avoid calls calls' o p psm lci idx,
      h0.res r = some sr → sr.srType = .mem .memAddr → h0.lci r = some lci0 →
      ownSlots lci0 = false → acceptLockedResource h0 r fresh vio = .ok (hSuccess, a, h1) →
      Run htabStep (fun _ _ => True) h1 calls h2 →
      forcedRescindMark (newTodo h2).2 r (.todo (newTodo h2).1) avoid = .ok (0, h3) →
      Run htabStep (fun _ _ => True) h3 calls' h4 →
      forcedRescindCleanup h4 (.todo (newTodo h2).1) = .ok h5 → sr.srOwner = some o →
      InPsm h1 o p r psm lci idx → Released h5 o p lci idx := by
  intro hall
  obtain ⟨h0, h1, h3, h5, sr, lci0, hp, ho, hlci, htr⟩ := pageRescinded_translates
  obtain ⟨o, p, psm, lci, idx, ho', hin⟩ :=
    acceptLockedResource_inPsm hp.sr_eq hp.type hp.lci_eq hp.own hp.accept
  cases ho.symm.trans ho'
  cases hlci.symm.trans hin.lci_eq
  have hrel := hall _ _ _ _ _ _ _ _ _ _ _ _ _ _ _ _ _ _ _ _ hp.sr_eq hp.type hp.lci_eq hp.own
    hp.accept (.nil _) hp.mark (.nil _) hp.clean ho hin
  exact absurd (hrel.untranslated 0 0x10001000 ⟨by decide, by decide⟩ htr) (by decide)

end Rhype
