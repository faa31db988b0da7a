import VmodWasm.PoolBooks

/-!
The end of the connection pool. `vwasm_http_pool_destroy` closes what is in the slots
and looks neither at the callers nor at the overflow connections, which only their
callers know. Whatever acquires and releases came before, it meets an open socket in
every close, and leaves open what is held as an overflow connection; when every
connection has been given back, each socket the pool ever opened is closed, once.
-/
namespace VmodWasm.PoolLife

open ConnectionPool HttpPool PoolTable PoolSockets PoolBooks
open Lib.Handles Lib.Closings Lib.Transition

/-- The slots after the loop of `vwasm_http_pool_destroy`. -/
def emptied (conns : List Conn) : List Conn := conns.map fun c => { c with fd := none }

/-- `vwasm_http_pool_destroy`, as far as the sockets go. -/
def vwasmHttpPoolDestroy (w : PoolWorld) : PoolWorld :=
  (w.closeFds (closedBy w.pool.conns (emptied w.pool.conns))).setConns (emptied w.pool.conns)

section Slots

variable {w : PoolWorld} {b : Books} {h : Handle SocketInfo}

/-- The loop closes the descriptors of all slots. -/
theorem mem_closedBy_emptied (conns : List Conn) (fd : ℕ) :
    fd ∈ closedBy conns (emptied conns) ↔
      ∃ (i : ℕ) (c : Conn), conns[i]? = some c ∧ c.fd = some fd := by
  have hslots : closedBy conns (emptied conns) = conns.filterMap Conn.fd := by
    unfold closedBy emptied
    induction conns with
    | nil => rfl
    | cons c conns ih =>
      rw [List.map_cons, List.zip_cons_cons, List.filterMap_cons, List.filterMap_cons, ih]
      rfl
  rw [hslots, List.mem_filterMap]
  constructor
  · intro hmem
    obtain ⟨c, hc, hfd⟩ := hmem
    obtain ⟨i, hi⟩ := List.mem_iff_getElem?.mp hc
    exact ⟨i, c, hi, hfd⟩
  · intro hslot
    obtain ⟨i, c, hi, hfd⟩ := hslot
    exact ⟨c, List.mem_of_getElem? hi, hfd⟩

theorem place_of_mem_closedBy {fd : ℕ}
    (hfd : fd ∈ closedBy w.pool.conns (emptied w.pool.conns)) :
    ∃ i busy, (tableOf w).place (.slot i) = some (fd, busy) := by
  obtain ⟨i, c, hi, hc⟩ := (mem_closedBy_emptied w.pool.conns fd).mp hfd
  exact ⟨i, c.inUse, by simp [place_slot, hi, placeOf, hc]⟩

theorem destroy_tidy (hb : Kept b) : Tidy (vwasmHttpPoolDestroy b.world) := by
  refine hb.tidy.close _ (closedBy_nodup b.world hb.base _) ?_
  intro fd hfd
  obtain ⟨i, busy, hplace⟩ := place_of_mem_closedBy hfd
  exact hb.base.place_open _ fd busy hplace

/-- The number of an open socket tells whose it is. -/
theorem entry_of_id (hb : Kept b) {fd : ℕ} {ref : ConnRef} {c : Conn} {h' : Handle SocketInfo}
    (hh : b.world.kernel fd = some h) (he : Entry b.world ref c h') (hid : h'.id = h.id) :
    Entry b.world ref c h := by
  obtain ⟨hc, fd', hfd', hh'⟩ := he
  obtain rfl := hb.base.id_inj fd fd' h h' hh hh' hid.symm
  exact ⟨hc, fd, hfd', hh⟩

/-- What is open afterwards was neither in a slot nor idle. -/
theorem open_after_destroy (hb : Kept b) (fd : ℕ)
    (hh : (vwasmHttpPoolDestroy b.world).kernel fd = some h) :
    ∃ t p k c, b.world.held t = some (p, .heap k) ∧ Entry b.world (.heap k) c h := by
  obtain ⟨hh, hout⟩ := closeFds_kernel hh
  have hslot (i : ℕ) (c : Conn) (he : Entry b.world (.slot i) c h) : False := by
    obtain ⟨hc, fd', hfd', hh'⟩ := he
    obtain rfl := hb.base.id_inj fd fd' h h hh hh' rfl
    exact hout ((mem_closedBy_emptied _ fd).mpr ⟨i, c, hc, hfd'⟩)
  rcases hb.idle_or_held fd hh with ⟨i, c, h', he, -, hid⟩ | ⟨t, p, ref, c, h', hheld, he, hid⟩
  · exact (hslot i c (entry_of_id hb hh he hid)).elim
  · have he' := entry_of_id hb hh he hid
    cases ref with
    | slot i => exact (hslot i c he').elim
    | heap k => exact ⟨t, p, k, c, hheld, he'⟩

/-- An overflow connection keeps its socket. -/
theorem open_of_overflow (hb : Kept b) {k : ℕ} {c : Conn} (he : Entry b.world (.heap k) c h) :
    ∃ fd, (vwasmHttpPoolDestroy b.world).kernel fd = some h := by
  obtain ⟨hc, fd, hfd, hh⟩ := id he
  refine ⟨fd, ?_⟩
  have hout : fd ∉ closedBy b.world.pool.conns (emptied b.world.pool.conns) := by
    intro hfd'
    obtain ⟨i, busy, hplace⟩ := place_of_mem_closedBy hfd'
    obtain ⟨fd', hplace', hh'⟩ := he.place
    obtain rfl := hb.base.id_inj fd fd' h h hh hh' rfl
    have hsame := hb.base.place_inj _ _ fd _ _ hplace hplace'
    contradiction
  exact (if_neg hout).trans hh

/-- As many releases as acquires: nobody holds a connection. -/
theorem held_none_of_stats (hb : Kept b)
    (hstats : b.world.stats.acquires = b.world.stats.releases) (t : ℕ) :
    b.world.held t = none := by
  obtain ⟨n, hcounts, hbalance⟩ := hb.tally
  have hzero : n = 0 := by omega
  subst hzero
  have hempty := (Set.ncard_eq_zero hcounts.finite).mp hcounts.card
  exact Option.not_isSome_iff_eq_none.mp (Set.eq_empty_iff_forall_notMem.mp hempty t)

end Slots

theorem kept_of_run (maxConns defaultTimeoutMs : ℕ) (dnsTtlS : ℤ) (dns : List DnsEntry)
    (breakers : List CircuitBreaker.Breaker) (calls : List (ℕ × BookCall)) (b : Books)
    (hrun : Run (fun b l b' => bookCall b l = some b')
      ⟨newWorld maxConns defaultTimeoutMs dnsTtlS dns breakers, []⟩ calls b) : Kept b :=
  hrun.invariant Kept (fun b l b' hcall hb => bookCall_kept b b' l hcall hb)
    (newBooks_kept maxConns defaultTimeoutMs dnsTtlS dns breakers)

/-- However callers have acquired and released connections, one after another: the end
of the pool closes no socket twice and no descriptor that is not open, the sockets
that stay open are those of held overflow connections, and if every caller has
released its connection then the sockets closed are all those ever opened. -/
theorem pool_destroy_closes (maxConns defaultTimeoutMs : ℕ) (dnsTtlS : ℤ) (dns : List DnsEntry)
    (breakers : List CircuitBreaker.Breaker) (calls : List (ℕ × BookCall)) (b : Books)
    (hrun : Run (fun b l b' => bookCall b l = some b')
      ⟨newWorld maxConns defaultTimeoutMs dnsTtlS dns breakers, []⟩ calls b) :
    let w := vwasmHttpPoolDestroy b.world
    (∀ met ∈ w.closes, met ≠ none) ∧ (closedIds w.closes).Nodup ∧
    (∀ h, (∃ fd, w.kernel fd = some h) ↔
      ∃ t p k c, b.world.held t = some (p, .heap k) ∧ Entry b.world (.heap k) c h) ∧
    ((∀ t, b.world.held t = none) → ∀ id, id ∈ closedIds w.closes ↔ id < w.opened) := by
  have hb := kept_of_run maxConns defaultTimeoutMs dnsTtlS dns breakers calls b hrun
  have htidy := destroy_tidy hb
  refine ⟨htidy.met, htidy.once, ?_, ?_⟩
  · intro h
    constructor
    · intro hopen
      obtain ⟨fd, hh⟩ := hopen
      exact open_after_destroy hb fd hh
    · intro hheld
      obtain ⟨t, p, k, c, -, he⟩ := hheld
      exact open_of_overflow hb he
  · intro hback id
    refine ⟨htidy.closed_lt id, fun hid => (htidy.closed_iff id hid).mpr ?_⟩
    intro fd h hh
    obtain ⟨t, p, k, c, hheld, -⟩ := open_after_destroy hb fd hh
    rw [hback t] at hheld
    contradiction

/-- The calls of `mixedCalls` and the last release: a connection that was reused, one
that was an overflow connection, and one that is still in the slot at the end. -/
def mixedLife : List (ℕ × BookCall) := mixedCalls ++ [(3, .release true 7)]

theorem pool_destroy_closes_mixedLife :
    ∃ b, exec bookCall ⟨newWorld 1 1000 60 [] [], []⟩ mixedLife = some b ∧
      (∀ t, b.world.held t = none) ∧
      closedIds (vwasmHttpPoolDestroy b.world).closes = [1, 0, 2] ∧
      ∀ id, id ∈ closedIds (vwasmHttpPoolDestroy b.world).closes ↔
        id < (vwasmHttpPoolDestroy b.world).opened := by
  obtain ⟨b, hb⟩ := Option.isSome_iff_exists.mp
    (show (exec bookCall ⟨newWorld 1 1000 60 [] [], []⟩ mixedLife).isSome by decide +kernel)
  have hfacts : (exec bookCall ⟨newWorld 1 1000 60 [] [], []⟩ mixedLife).map (fun b =>
      (b.world.stats, closedIds (vwasmHttpPoolDestroy b.world).closes)) =
      some (⟨4, 4, 3, 1, 1⟩, [1, 0, 2]) := by
    decide +kernel
  simp only [hb, Option.map_some, Option.some.injEq, Prod.mk.injEq] at hfacts
  obtain ⟨hstats, hclosed⟩ := hfacts
  have hkept := kept_of_run 1 1000 60 [] [] mixedLife b (Run.of_exec hb)
  have hback := held_none_of_stats hkept (by rw [hstats])
  exact ⟨b, hb, hback, hclosed,
    (pool_destroy_closes 1 1000 60 [] [] mixedLife b (Run.of_exec hb)).2.2.2 hback⟩

end VmodWasm.PoolLife
