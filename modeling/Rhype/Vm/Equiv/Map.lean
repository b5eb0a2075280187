import Rhype.Vm.Basic

/-!
# Windows

What the hypervisor reaches through a window: the memory that was mapped, for the addresses that
were mapped (`physical_mapLoop`), and behind them whatever its page tables had there before
(`hvMapLa_window`).
-/

namespace Rhype.Vm

open BitVec Ia32 Pgcache

/-- What the loops of `hv_map` do to the pages of a range, one after the other
(`mapTables_mapLoop`). -/
def mapLoop (flags : Word) : Nat → HvVm → Word → Word → Hv HvVm
  | 0, vm, _, _ => .ok vm
  | n + 1, vm, vaddr, paddr => do
    let pde := vm.hvPgd (pdiOf vaddr)
    hassert (test pde pteP)
    hassert (!test pde ptePs)
    mapLoop flags n (vm.setPte (pdiOf vaddr) (ptiOf vaddr) (paddr ||| pteP ||| flags))
      (vaddr + Pgcache.pgsize) (paddr + Pgcache.pgsize)

/-- The pages of a number of bytes. -/
def numPages (size : Word) : Nat := (size.toNat + 0xFFF) / 0x1000

/-- The real address behind `a`, when `n` pages from `vaddr` on are mapped to those from `paddr`
on. -/
def remapped (vm : HvVm) (vaddr paddr : Word) (n : Nat) (a : Word) : Option Word :=
  if vaddr.toNat ≤ a.toNat ∧ a.toNat < vaddr.toNat + n * 0x1000 then some (paddr + (a - vaddr))
  else physical vm a

/-- An entry for a page, and the address of a byte in it. -/
theorem pte_or_offset {vaddr paddr flags a : Word} (hflags : flags &&& pteSmallbase = 0)
    (hvaddr : vaddr.toNat % 0x1000 = 0) (hpaddr : paddr.toNat % 0x1000 = 0)
    (hlo : vaddr.toNat ≤ a.toNat) (hhi : a.toNat < vaddr.toNat + 0x1000) :
    ((paddr ||| pteP ||| flags) &&& pteSmallbase) ||| (a &&& ~~~pteSmallbase) =
      paddr + (a - vaddr) := by
  have hpage : (paddr ||| pteP ||| flags) &&& pteSmallbase = paddr := by
    have hp : pteP &&& pteSmallbase = 0 := by decide
    rw [and_or_distrib_right, and_or_distrib_right, hp, hflags]
    simpa [ptePageaddr] using aligned_iff.2 hpaddr
  have hoffset : a &&& ~~~pteSmallbase = a - vaddr := by
    apply eq_of_toNat_eq
    rw [Word.toNat_and_two_pow_sub_one (k := 12) _ _ rfl, toNat_sub]
    omega
  rw [hpage, hoffset, add_eq_or_of_and_eq_zero]
  apply eq_of_getLsbD_eq
  intro i hi
  rw [← hoffset, ← aligned_iff.2 hpaddr, ptePageaddr]
  simp only [getLsbD_and, getLsbD_not]
  cases pteSmallbase.getLsbD i <;> simp

section

variable {vm vm' : HvVm} {vaddr paddr size flags : Word} {n pdi i : Nat} {pa : PgAlloc}

theorem physical_setPte (hflags : flags &&& pteSmallbase = 0) (hbase : hvVbase ≤ vaddr)
    (hvaddr : vaddr.toNat % 0x1000 = 0) (hpaddr : paddr.toNat % 0x1000 = 0)
    (hp : test (vm.hvPgd (pdiOf vaddr)) pteP = true)
    (hps : test (vm.hvPgd (pdiOf vaddr)) ptePs = false) (a : Word) :
    physical (vm.setPte (pdiOf vaddr) (ptiOf vaddr) (paddr ||| pteP ||| flags)) a =
      remapped vm vaddr paddr 1 a := by
  unfold remapped
  split_ifs with hin
  · have hpage : a.toNat / 2 ^ 12 = vaddr.toNat / 2 ^ 12 := by omega
    obtain ⟨hpdi, hpti⟩ := indices_eq_iff.2 hpage
    have hlt : ¬ a < hvVbase := not_lt.2 (le_trans hbase hin.1)
    have hpte : test (paddr ||| pteP ||| flags) pteP = true := by
      rw [test_or, test_or, show test pteP pteP = true by decide]
      simp
    rw [← pte_or_offset hflags hvaddr hpaddr hin.1 (by omega)]
    simp [physical, HvVm.setPte, hpdi, hpti, hlt, hp, hps, hpte]
  -- another page has another place in the tables
  have hplace : ¬ (pdiOf a = pdiOf vaddr ∧ ptiOf a = ptiOf vaddr) := by
    rw [indices_eq_iff]
    omega
  unfold physical HvVm.setPte
  by_cases hpdi : pdiOf a = pdiOf vaddr
  · have hpti : ptiOf a ≠ ptiOf vaddr := fun heq => hplace ⟨hpdi, heq⟩
    simp [hpdi, hpti]
  · simp [hpdi]

theorem toNat_add_pgsize {a : Word} (ha : a.toNat + 0x1000 < 2 ^ 32) :
    (a + Pgcache.pgsize).toNat = a.toNat + 0x1000 := by
  rw [toNat_add, show Pgcache.pgsize.toNat = 0x1000 from rfl]
  omega

theorem remapped_succ (hfits : vaddr.toNat + (n + 1) * 0x1000 ≤ 2 ^ 32) (hn : 0 < n)
    (hfirst : ∀ a, physical vm' a = remapped vm vaddr paddr 1 a) (a : Word) :
    remapped vm' (vaddr + Pgcache.pgsize) (paddr + Pgcache.pgsize) n a =
      remapped vm vaddr paddr (n + 1) a := by
  have hnext := toNat_add_pgsize (a := vaddr) (by omega)
  have hbyte : paddr + Pgcache.pgsize + (a - (vaddr + Pgcache.pgsize)) = paddr + (a - vaddr) := by
    grind
  unfold remapped at hfirst ⊢
  rw [hbyte, hfirst]
  split_ifs <;> first | rfl | omega

/-- **The pages of a window** are mapped, and no others. -/
theorem physical_mapLoop (hflags : flags &&& pteSmallbase = 0) :
    ∀ (n : Nat) {vm : HvVm} {vaddr paddr : Word}, hvVbase ≤ vaddr → vaddr.toNat % 0x1000 = 0 →
    paddr.toNat % 0x1000 = 0 → vaddr.toNat + n * 0x1000 ≤ 2 ^ 32 →
    mapLoop flags n vm vaddr paddr = .ok vm' → ∀ a, physical vm' a = remapped vm vaddr paddr n a
  | 0, vm, vaddr, paddr, _, _, _, _, hmap, a => by
    cases hmap
    rw [remapped, if_neg (by omega)]
  | n + 1, vm, vaddr, paddr, hbase, hvaddr, hpaddr, hfits, hmap, a => by
    simp only [mapLoop, seq_ok, hassert_ok] at hmap
    obtain ⟨-, hp, -, hps, hmap⟩ := hmap
    have hfirst := physical_setPte hflags hbase hvaddr hpaddr hp (by simpa using hps)
    cases n with
    | zero =>
      cases hmap
      exact hfirst a
    | succ n =>
      rw [← remapped_succ hfits n.succ_pos hfirst]
      have hv := toNat_add_pgsize (a := vaddr) (by omega)
      have hpa : (paddr + Pgcache.pgsize).toNat % 0x1000 = 0 := by
        rw [toNat_add, show Pgcache.pgsize.toNat = 0x1000 from rfl]
        omega
      refine physical_mapLoop hflags (n + 1) ?_ (by omega) hpa (by omega) hmap a
      rw [le_def] at hbase ⊢
      omega

/-! ### The loops of `hv_map` -/

/-- Every address of the hypervisor has a page table. -/
def HvVm.Tables (vm : HvVm) : Prop :=
  ∀ vaddr, hvVbase ≤ vaddr →
    test (vm.hvPgd (pdiOf vaddr)) pteP = true ∧ test (vm.hvPgd (pdiOf vaddr)) ptePs = false

theorem mapLoop_ok (flags : Word) : ∀ (n : Nat) {vm : HvVm} {vaddr : Word} (paddr : Word),
    vm.Tables → hvVbase ≤ vaddr → vaddr.toNat + n * 0x1000 ≤ 2 ^ 32 →
    ∃ vm', mapLoop flags n vm vaddr paddr = .ok vm' ∧ vm'.hvPgd = vm.hvPgd
  | 0, vm, _, _, _, _, _ => ⟨vm, rfl, rfl⟩
  | n + 1, vm, vaddr, paddr, ht, hbase, hfits => by
    obtain ⟨hp, hps⟩ := ht vaddr hbase
    simp only [mapLoop, hp, hps, hassert, Bool.not_false, if_true, ok_bind]
    cases n with
    | zero => exact ⟨_, rfl, rfl⟩
    | succ n =>
      have hnext := toNat_add_pgsize (a := vaddr) (by omega)
      refine mapLoop_ok flags (n + 1) _ ht ?_ (by omega)
      rw [le_def] at hbase ⊢
      omega

/-- Page `i` of a range. -/
def page (addr : Word) (i : Nat) : Word := addr + BitVec.ofNat 32 (i * 0x1000)

theorem page_succ (addr : Word) (i : Nat) : page addr i + Pgcache.pgsize = page addr (i + 1) := by
  unfold page Pgcache.pgsize
  bv_omega

theorem page_indices {pti : Nat} (hfits : vaddr.toNat + i * 0x1000 < 2 ^ 32)
    (hplace : pdi * 1024 + pti = vaddr.toNat / 0x1000 + i) (hpti : pti < 1024) :
    (page vaddr i).toNat = vaddr.toNat + i * 0x1000 ∧ pdiOf (page vaddr i) = pdi ∧
      ptiOf (page vaddr i) = pti := by
  have haddr : (page vaddr i).toNat = vaddr.toNat + i * 0x1000 := by
    rw [page, toNat_add, BitVec.toNat_ofNat]
    omega
  rw [pdiOf_eq, ptiOf_eq]
  omega

theorem mapped_lt_iff (hi : i * 0x1000 < 2 ^ 32) :
    BitVec.ofNat 32 (i * 0x1000) < size ↔ i < numPages size := by
  rw [BitVec.lt_def, BitVec.toNat_ofNat, numPages]
  omega

/-- The inner loop goes on to the page where the page table or the range ends. -/
theorem mapTable_mapLoop (flags paddr : Word)
    (hfits : vaddr.toNat + numPages size * 0x1000 ≤ 2 ^ 32) (hv : 0 < vaddr.toNat)
    (hp : test (vm.hvPgd pdi) pteP = true)
    (hps : test (vm.hvPgd pdi) ptePs = false) :
    ∀ (left : Nat) (vm' : HvVm) (pti i : Nat), vm'.hvPgd = vm.hvPgd →
      pdi * 1024 + pti = vaddr.toNat / 0x1000 + i → pti + left = 1024 → i ≤ numPages size →
      ∃ t j, mapTable flags paddr size pdi left vm' pti (.ofNat 32 (i * 0x1000)) =
          (t, .ofNat 32 (j * 0x1000)) ∧ j = min (numPages size) (i + left) ∧
        mapLoop flags (numPages size - i) vm' (page vaddr i) (page paddr i) =
          mapLoop flags (numPages size - j) t (page vaddr j) (page paddr j)
  | 0, vm', pti, i, hpgd, _, _, hi => ⟨vm', i, rfl, by omega, rfl⟩
  | left + 1, vm', pti, i, hpgd, hplace, hleft, hi => by
    unfold mapTable
    have hiff := @mapped_lt_iff size i (by omega)
    by_cases hlt : i < numPages size
    · rw [if_pos (hiff.2 hlt)]
      obtain ⟨-, hpdi, hpti⟩ := page_indices (by omega) hplace (by omega)
      have hsucc : .ofNat 32 (i * 0x1000) + Pgcache.pgsize =
          .ofNat 32 ((i + 1) * 0x1000) := by
        unfold Pgcache.pgsize
        bv_omega
      obtain ⟨t, j, htable, hj, hloop⟩ := mapTable_mapLoop flags paddr hfits hv hp hps left
        (vm'.setPte pdi pti (page paddr i ||| pteP ||| flags)) (pti + 1) (i + 1) hpgd (by omega)
        (by omega) hlt
      refine ⟨t, j, ?_, by omega, ?_⟩
      · rwa [hsucc]
      · rw [← hloop, show numPages size - i = numPages size - (i + 1) + 1 by omega, mapLoop, hpdi,
          hpti, hpgd, hp, hps, page_succ, page_succ]
        rfl
    · rw [if_neg (mt hiff.1 hlt)]
      exact ⟨vm', i, rfl, by omega, rfl⟩

/-- The loops of `hv_map` map one page after the other. -/
theorem mapTables_mapLoop (flags paddr : Word) (hv : 0 < vaddr.toNat)
    (hfits : vaddr.toNat + numPages size * 0x1000 ≤ 2 ^ 32) :
    ∀ (fuel : Nat) (vm : HvVm) (pdi pti i : Nat),
      pdi * 1024 + pti = vaddr.toNat / 0x1000 + i → pti < 1024 → i ≤ numPages size →
      numPages size + pti ≤ i + fuel * 1024 →
      mapTables flags paddr size (fuel + 1) vm pdi pti (.ofNat 32 (i * 0x1000)) =
        mapLoop flags (numPages size - i) vm (page vaddr i) (page paddr i) := by
  intro fuel
  induction fuel with
  | zero =>
    intro vm pdi pti i _ _ hi hfuel
    obtain rfl : numPages size = i := by omega
    rw [mapTables, if_neg (mt (mapped_lt_iff (by omega)).1 (lt_irrefl _)), Nat.sub_self, mapLoop]
  | succ fuel ih =>
    intro vm pdi pti i hplace hpti hi hfuel
    rw [mapTables]
    have hiff := @mapped_lt_iff size i (by omega)
    by_cases hlt : i < numPages size
    swap
    · rw [if_neg (mt hiff.1 hlt), show numPages size - i = 0 by omega, mapLoop]
    rw [if_pos (hiff.2 hlt)]
    -- the entry of the directory is checked for the first page
    obtain ⟨-, hpdi, -⟩ := page_indices (by omega) hplace hpti
    by_cases hpde : test (vm.hvPgd pdi) pteP = true ∧ test (vm.hvPgd pdi) ptePs = false
    · obtain ⟨hp, hps⟩ := hpde
      obtain ⟨t, j, htable, hj, hloop⟩ := mapTable_mapLoop flags paddr hfits hv hp hps
        (1024 - pti) vm pti i rfl hplace (by omega) hi
      rw [hloop]
      simp only [hp, hps, hassert, Bool.not_false, if_true, ok_bind, htable]
      rcases Nat.lt_or_ge (i + (1024 - pti)) (numPages size) with hmore | hend
      · have hnext : (pdi + 1) * 1024 + 0 = vaddr.toNat / 0x1000 + j := by
          rw [Nat.add_zero]
          omega
        exact ih t (pdi + 1) 0 j hnext (by decide) (by omega) (by omega)
      · rw [show numPages size - j = 0 by omega, mapLoop, mapTables,
          if_neg (mt (mapped_lt_iff (by omega)).1 (by omega))]
    · rw [show numPages size - i = numPages size - (i + 1) + 1 by omega, mapLoop, hpdi]
      cases hp : test (vm.hvPgd pdi) pteP with
      | false => simp only [hp]; rfl
      | true =>
        have hps : test (vm.hvPgd pdi) ptePs = true := by simpa [hp] using hpde
        simp only [hp, hps]
        rfl

theorem mapTables_eq (hv : 0 < vaddr.toNat)
    (hfits : vaddr.toNat + numPages size * 0x1000 ≤ 2 ^ 32) :
    mapTables flags paddr size 1025 vm (pdiOf vaddr) (ptiOf vaddr) 0 =
      mapLoop flags (numPages size) vm vaddr paddr := by
  have hzero : ∀ a : Word, page a 0 = a := fun a => BitVec.add_zero a
  have hrun := mapTables_mapLoop flags paddr hv hfits 1024 vm (pdiOf vaddr) (ptiOf vaddr) 0
    (by rw [pdiOf_eq, ptiOf_eq]; omega) (by rw [ptiOf_eq]; omega) (Nat.zero_le _)
    (by rw [ptiOf_eq]; omega)
  rwa [Nat.sub_zero, hzero, hzero] at hrun

/-- The loop of `invalidate_tlb` ends at the end of the range. -/
theorem tlbLoop_ok {last : Word} (hlast : last.toNat + 0x1000 < 2 ^ 32) : ∀ (fuel : Nat) {a : Word},
    last.toNat < a.toNat + fuel * 0x1000 → tlbLoop last (fuel + 1) a = .ok ()
  | 0, a, ha => if_neg (by rw [le_def]; omega)
  | fuel + 1, a, ha => by
    rw [tlbLoop]
    split_ifs with hle
    · refine tlbLoop_ok hlast fuel ?_
      rw [le_def] at hle
      rw [toNat_add, show Pgcache.pgsize.toNat = 0x1000 from rfl]
      omega
    · rfl

/-- It does not end when the range goes up to the last address. -/
theorem tlbLoop_spin : ∀ (fuel : Nat) (a : Word), tlbLoop (allOnes 32) fuel a = .error .spin
  | 0, _ => rfl
  | fuel + 1, a => by
    have hle : a.toNat ≤ 2 ^ 32 - 1 := Nat.le_pred_of_lt a.isLt
    rw [tlbLoop, if_pos (by rwa [le_def, toNat_allOnes]), tlbLoop_spin fuel]

/-- The mapping of a range that `hv_map` leaves, if `invalidate_tlb` ends. -/
theorem hvMapAt_eq (flush : Bool) (htables : vm.Tables) (hbase : hvVbase ≤ vaddr)
    (hvaddr : vaddr.toNat % 0x1000 = 0) (hpaddr : paddr.toNat % 0x1000 = 0)
    (hflags : flags &&& pteSmallbase = 0) (hfits : vaddr.toNat + n * 0x1000 ≤ 2 ^ 32) (hn : 0 < n) :
    ∃ vm', vm'.hvPgd = vm.hvPgd ∧ (∀ a, physical vm' a = remapped vm vaddr paddr n a) ∧
      hvMapAt vm vaddr paddr (.ofNat 32 (n * 0x1000)) flags flush =
        if flush = true ∧ vaddr.toNat + n * 0x1000 = 2 ^ 32 then .error .spin else .ok vm' := by
  have hoffset : ∀ a : Word, a.toNat % 0x1000 = 0 → a &&& (Pgcache.pgsize - 1) = 0 := by
    intro a ha
    apply eq_of_toNat_eq
    rwa [Word.toNat_and_two_pow_sub_one (k := 12) _ _ rfl]
  obtain ⟨vm', hloop, hpgd⟩ := mapLoop_ok flags n paddr htables hbase hfits
  have hv : 0xFC000000 ≤ vaddr.toNat := hbase
  have hnum : numPages (.ofNat 32 (n * 0x1000)) = n := by
    rw [numPages, BitVec.toNat_ofNat]
    omega
  have hpages : mapTables flags paddr (.ofNat 32 (n * 0x1000)) 1025 vm (pdiOf vaddr) (ptiOf vaddr)
      0 = .ok vm' := by
    rw [mapTables_eq (by omega) (by rwa [hnum]), hnum, hloop]
  refine ⟨vm', hpgd, physical_mapLoop hflags n hbase hvaddr hpaddr hfits hloop, ?_⟩
  have hlast : (vaddr + .ofNat 32 (n * 0x1000) - 1).toNat = vaddr.toNat + n * 0x1000 - 1 := by
    rw [toNat_sub, toNat_add, BitVec.toNat_ofNat, show (1 : Word).toNat = 1 from rfl]
    omega
  simp only [hvMapAt, hoffset vaddr hvaddr, hoffset paddr hpaddr, hbase, decide_true, hassert,
    if_true, ok_bind, hpages]
  rcases flush with _ | _
  · simp
  simp only [true_and, if_true]
  unfold invalidateTlb
  split_ifs with htop
  · have hones : vaddr + .ofNat 32 (n * 0x1000) - 1 = .allOnes 32 := by
      apply eq_of_toNat_eq
      rw [hlast, htop]
      rfl
    rw [hones, tlbLoop_spin]
    rfl
  · rw [tlbLoop_ok (by rw [hlast]; omega) 0x100000 (by rw [hlast]; omega)]
    rfl

theorem hvMap_eq_some (hmap : hvMap pa vm paddr size pteRw true = .ok (some (vaddr, vm')))
    (hpaddr : paddr.toNat % 0x1000 = 0) : pa.getPages size = some vaddr ∧
      ∀ a, physical vm' a = remapped vm vaddr paddr (numPages size) a := by
  unfold hvMap at hmap
  split at hmap
  · cases hmap
  rename_i v hv
  simp only [hvMapAt, seq_ok, hassert_ok, decide_eq_true_eq] at hmap
  obtain ⟨vm0, ⟨-, -, -, -, -, hbase, vm1, hloop, hflush⟩, hmap⟩ := hmap
  have hsame : vm1 = vm0 := by
    obtain ⟨-, -, hflush⟩ := of_seq ((if_pos trivial).symm.trans hflush)
    cases hflush
    rfl
  cases hmap
  have haligned := pa.aligned _ _ hv
  have hfits : vaddr.toNat + numPages size * 0x1000 ≤ 2 ^ 32 := by
    have hfits := pa.fits _ _ hv
    unfold numPages
    omega
  have hpos : 0xFC000000 ≤ vaddr.toNat := hbase
  rw [mapTables_eq (by omega) hfits, hsame] at hloop
  exact ⟨hv, physical_mapLoop (by decide) _ hbase haligned hpaddr hfits hloop⟩

/-- **A window of `hv_map_LA`**: its addresses come from the allocator, and reach the memory of the
partition as far as it was mapped. -/
theorem hvMapLa_window {lmm : Pgcache.LogicalMap} {laddr rbase : Word}
    (hmap : hvMapLa lmm pa vm laddr size = .ok (some (rbase, vm'))) :
    ∃ paddr vaddr, Pgcache.logicalToPhysicalAddress lmm laddr size = .ok paddr ∧
      pa.getPages (size + (paddr &&& ~~~pteSmallbase)) = some vaddr ∧
      rbase = vaddr + (paddr &&& ~~~pteSmallbase) ∧
      ∀ a, physical vm' a = remapped vm vaddr (paddr &&& pteSmallbase)
        (numPages (size + (paddr &&& ~~~pteSmallbase))) a := by
  rw [hvMapLa, seq_ok] at hmap
  obtain ⟨paddr, hpaddr, hmap⟩ := hmap
  split_ifs at hmap
  · cases hmap
  · cases hmap
  simp only [seq_ok] at hmap
  obtain ⟨_ | ⟨vaddr, vm1⟩, hmapped, hmap⟩ := hmap
  · cases hmap
  · cases hmap
    obtain ⟨hv, hphys⟩ := hvMap_eq_some hmapped (aligned_iff.1 ptePageaddr_ptePageaddr)
    exact ⟨paddr, vaddr, hpaddr, hv, rfl, hphys⟩

end

/-- **A range that is mapped**: every address of it has the real address with the same offset, and
the other addresses of the hypervisor are left as they were.  This is so exactly when `hv_map` does
not have to flush a range that ends with the address space, because then `invalidate_tlb` never
ends. -/
theorem hvMapAt_maps_iff {vm : HvVm} {vaddr paddr size flags : Word} (flush : Bool)
    (htables : vm.Tables) (hbase : hvVbase ≤ vaddr) (hvaddr : vaddr.toNat % 0x1000 = 0)
    (hpaddr : paddr.toNat % 0x1000 = 0) (hsize : size.toNat % 0x1000 = 0) (hpos : 0 < size.toNat)
    (hfits : vaddr.toNat + size.toNat ≤ 2 ^ 32) (hflags : flags.toNat < 0x1000) :
    (∃ vm', hvMapAt vm vaddr paddr size flags flush = .ok vm' ∧
      (∀ o, o < size → physical vm' (vaddr + o) = some (paddr + o)) ∧
      ∀ a, (∀ o, o < size → a ≠ vaddr + o) → physical vm' a = physical vm a) ↔
    (flush = true → vaddr.toNat + size.toNat < 2 ^ 32) := by
  obtain ⟨n, hn⟩ : ∃ n, size.toNat = n * 0x1000 :=
    ⟨size.toNat / 0x1000, by omega⟩
  have hsize : size = .ofNat 32 (n * 0x1000) := by rw [← hn, ofNat_toNat, setWidth_eq]
  have hlow : flags &&& pteSmallbase = 0 := by
    have hmod : flags = .setWidth 32 (flags.setWidth 12) := by bv_omega
    rw [hmod]
    apply eq_of_getLsbD_eq
    intro i hi
    have hbits : ∀ i < 32, i < 12 → pteSmallbase.getLsbD i = false := by decide
    by_cases h12 : i < 12 <;> simp [h12, hbits i hi]
  rw [hn] at hpos hfits ⊢
  obtain ⟨vm', -, hphys, hmap⟩ := hvMapAt_eq flush htables hbase hvaddr hpaddr hlow hfits (by omega)
  rw [hsize, hmap]
  split_ifs with hspin
  · exact iff_of_false nofun fun h => (h hspin.1).ne hspin.2
  refine iff_of_true ⟨vm', rfl, fun o ho => ?_, fun a ha => ?_⟩ fun hflush => ?_
  · rw [BitVec.lt_def, ← hsize] at ho
    rw [hphys, remapped, if_pos (by rw [toNat_add]; omega)]
    congr 1
    grind
  · rw [hphys, remapped, if_neg]
    rintro ⟨hlo, hhi⟩
    refine ha (a - vaddr) ?_ (by grind)
    rw [BitVec.lt_def, ← hsize, toNat_sub]
    omega
  · exact lt_of_le_of_ne hfits fun htop => hspin ⟨hflush, htop⟩

def emptyVm : HvVm := ⟨fun _ => pteP, fun _ _ => 0⟩

theorem emptyVm_tables : emptyVm.Tables :=
  fun _ _ => (by decide : test pteP pteP = true ∧ test pteP ptePs = false)

/-- Two pages of two page tables. -/
theorem hvMapAt_maps_iff_twoTables :
    ∃ vm', hvMapAt emptyVm 0xFC3FF000 0x5000 0x2000 pteRw true = .ok vm' ∧
      (∀ o, o < 0x2000 → physical vm' (0xFC3FF000 + o) = some (0x5000 + o)) ∧
      ∀ a, (∀ o, o < 0x2000 → a ≠ 0xFC3FF000 + o) → physical vm' a = physical emptyVm a :=
  (hvMapAt_maps_iff true emptyVm_tables (by decide) (by decide) (by decide) (by decide) (by decide)
    (by decide) (by decide)).2 fun _ => by decide

/-- The last page of the address space is mapped, and the call does not return. -/
theorem hvMapAt_top_spins : hvMapAt emptyVm 0xFFFFF000 0x5000 0x1000 pteRw true = .error .spin := by
  obtain ⟨vm', -, -, hmap⟩ := hvMapAt_eq (n := 1) true emptyVm_tables
    (show hvVbase ≤ 0xFFFFF000 by decide) (by decide) (show (0x5000 : Word).toNat % 0x1000 = 0 by
      decide) (show pteRw &&& pteSmallbase = 0 by decide) (by decide) (by decide)
  exact hmap.trans (if_pos ⟨rfl, by decide⟩)

end Rhype.Vm
