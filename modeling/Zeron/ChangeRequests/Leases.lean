import Mathlib

namespace Zeron.ChangeRequests

/-! # Demand leases of the change-request cache

Subscriptions share one cache entry for each key and count their demand on it.  The
counter of a dropped lease falls outside the lock that guards the map; the entry is
evicted under that lock, where the demand is still zero.
-/

structure ChangeRequestCacheKey where
  checkoutId : String
  branch : String
  upstreamRef : String
  remote : String
deriving DecidableEq, Repr

/-- Times and spans are in milliseconds. -/
structure Timing where
  withChangeRequestTtl : Nat := 120000
  withoutChangeRequestTtl : Nat := 45000
  failureInitialBackoff : Nat := 20000
  failureMaxBackoff : Nat := 900000
  contextPollInterval : Nat := 15000

structure CheckoutSourceContext where
  checkoutRoot : String
  localBranch : String

structure CheckoutChangeRequestStatus (request : Type) where
  checkoutId : String
  deviceId : String
  cwd : String
  branch : String
  changeRequest : Option request
  updatedAt : Nat

structure CacheState (request error : Type) where
  lastSuccess : Option (CheckoutChangeRequestStatus request)
  nextRefresh : Nat
  failures : Nat
  lastError : Option error

def failureBackoff (initial maximum failures : Nat) : Nat :=
  let exponent := min (failures - 1) 31
  min (initial * 2 ^ exponent) maximum

variable {request error : Type}

/-- What the lookup of one refresh answers, and the clock before it and after it. -/
structure Lookup (request error : Type) where
  source : CheckoutSourceContext
  now : Nat
  settled : Nat
  resolved : Except error (Option request)

/-- The refresh of an entry whose lock is held. -/
def CacheState.refresh (state : CacheState request error) (timing : Timing) (deviceId : String)
    (key : ChangeRequestCacheKey) (lookup : Lookup request error) :
    CacheState request error × Option (CheckoutChangeRequestStatus request) × Nat :=
  if lookup.now < state.nextRefresh then (state, state.lastSuccess, state.nextRefresh)
  else match lookup.resolved with
    | .ok changeRequest =>
        let ttl :=
          if changeRequest.isSome then timing.withChangeRequestTtl
          else timing.withoutChangeRequestTtl
        let snapshot :=
          { checkoutId := key.checkoutId, deviceId, cwd := lookup.source.checkoutRoot,
            branch := lookup.source.localBranch, changeRequest, updatedAt := lookup.settled }
        let nextRefresh := lookup.settled + ttl
        ({ lastSuccess := some snapshot, nextRefresh, failures := 0, lastError := none },
          some snapshot, nextRefresh)
    | .error error =>
        let failures := min (state.failures + 1) (2 ^ 32 - 1)
        let delay := failureBackoff timing.failureInitialBackoff timing.failureMaxBackoff failures
        let nextRefresh := lookup.settled + delay
        ({ state with nextRefresh, failures, lastError := some error }, state.lastSuccess, nextRefresh)

/-- Entries are named by the order in which they were allocated. -/
structure DemandLease where
  key : ChangeRequestCacheKey
  entry : Nat
deriving DecidableEq, Repr

/-- `alive` says that the shared state is still allocated, so that a weak pointer to it
upgrades.  The dropped leases are those whose counter has not fallen yet (`dropping`) and
those that took it to zero and have the lock still to come (`checking`). -/
structure Cache (request error : Type) where
  timing : Timing
  deviceId : String
  alive : Bool
  entries : ChangeRequestCacheKey → Option Nat
  allocated : Nat
  demand : Nat → Nat
  state : Nat → CacheState request error
  leases : List DemandLease
  dropping : List DemandLease
  checking : List DemandLease

namespace Cache

def start (timing : Timing) (deviceId : String) : Cache request error :=
  { timing, deviceId, alive := true
    entries := fun _ => none
    allocated := 0
    demand := fun _ => 0
    state := fun _ => { lastSuccess := none, nextRefresh := 0, failures := 0, lastError := none }
    leases := [], dropping := [], checking := [] }

variable (cache : Cache request error)

/-- The entry of a key, inserted where there is none. -/
def orInsert (key : ChangeRequestCacheKey) (now : Nat) : Cache request error × Nat :=
  match cache.entries key with
  | some entry => (cache, entry)
  | none =>
      let entry := cache.allocated
      ({ cache with
          entries := Function.update cache.entries key (some entry)
          allocated := entry + 1
          demand := Function.update cache.demand entry 0
          state := Function.update cache.state entry
            { lastSuccess := none, nextRefresh := now, failures := 0, lastError := none } }, entry)

def acquire (key : ChangeRequestCacheKey) (now : Nat) : Cache request error :=
  let (inserted, entry) := cache.orInsert key now
  { inserted with
    demand := Function.update inserted.demand entry (inserted.demand entry + 1)
    leases := inserted.leases ++ [{ key, entry }] }

/-- The map must hold the key: the lookup in it is an `expect`. -/
def refresh (lease : DemandLease) (lookup : Lookup request error) :
    Except String (Cache request error) :=
  match cache.entries lease.key with
  | none => .error "cache entry acquired"
  | some entry =>
      let (state, _) := (cache.state entry).refresh cache.timing cache.deviceId lease.key lookup
      .ok { cache with state := Function.update cache.state entry state }

/-- The first step of a drop: the last lease of an entry goes on to the lock. -/
def decrement (lease : DemandLease) : Cache request error :=
  let before := cache.demand lease.entry
  { cache with
    demand := Function.update cache.demand lease.entry (before - 1)
    checking := if before ≠ 1 then cache.checking else cache.checking ++ [lease] }

/-- The second step: evict the entry where it is the cached one and nobody demands it. -/
def evict (lease : DemandLease) : Cache request error :=
  if cache.alive ∧ cache.entries lease.key = some lease.entry ∧ cache.demand lease.entry = 0 then
    { cache with entries := Function.update cache.entries lease.key none }
  else cache

end Cache

/-- A lease is named by its place among those at the same point of their life. -/
inductive Action (request error : Type) where
  | acquire (key : ChangeRequestCacheKey) (now : Nat)
  | refresh (index : Nat) (lookup : Lookup request error)
  | drop (index : Nat)
  | decrement (index : Nat)
  | evict (index : Nat)
  | release

/-- A subscription owns the shared state, so this is released only when no lease is live.
A step of a lease that is not there does nothing. -/
def Cache.next (cache : Cache request error) :
    Action request error → Except String (Cache request error)
  | .acquire key now => .ok (if cache.alive then cache.acquire key now else cache)
  | .refresh index lookup =>
      match cache.leases[index]? with
      | some lease => cache.refresh lease lookup
      | none => .ok cache
  | .drop index =>
      match cache.leases[index]? with
      | some lease => .ok { cache with
          leases := cache.leases.eraseIdx index
          dropping := cache.dropping ++ [lease] }
      | none => .ok cache
  | .decrement index =>
      match cache.dropping[index]? with
      | some lease => .ok (Cache.decrement
          { cache with dropping := cache.dropping.eraseIdx index } lease)
      | none => .ok cache
  | .evict index =>
      match cache.checking[index]? with
      | some lease => .ok (Cache.evict
          { cache with checking := cache.checking.eraseIdx index } lease)
      | none => .ok cache
  | .release => .ok (
      if cache.leases.isEmpty then { cache with alive := false, entries := fun _ => none } else cache)

/-- `error` is the panic of a refresh. -/
def Cache.run (cache : Cache request error) (actions : List (Action request error)) :
    Except String (Cache request error) :=
  actions.foldlM Cache.next cache

/-! ## What holds at every step -/

def claims (leases : List DemandLease) (entry : Nat) : Nat :=
  leases.countP fun lease => lease.entry = entry

theorem claims_append (leases others : List DemandLease) (entry : Nat) :
    claims (leases ++ others) entry = claims leases entry + claims others entry :=
  List.countP_append

theorem claims_single (lease : DemandLease) (entry : Nat) :
    claims [lease] entry = if lease.entry = entry then 1 else 0 := by
  simp [claims, List.countP_cons]

theorem claims_eraseIdx {leases : List DemandLease} {index : Nat} {lease : DemandLease}
    (found : leases[index]? = some lease) (entry : Nat) :
    claims leases entry = claims (leases.eraseIdx index) entry + claims [lease] entry := by
  obtain ⟨inside, here⟩ := List.getElem?_eq_some_iff.mp found
  have perm := (List.getElem_cons_eraseIdx_perm inside).countP_eq (fun other => other.entry = entry)
  rw [here] at perm
  unfold claims
  rw [← perm, ← List.singleton_append, List.countP_append, Nat.add_comm]

theorem mem_eraseIdx {leases : List DemandLease} {index : Nat} {lease other : DemandLease}
    (found : leases[index]? = some lease) (member : other ∈ leases) (differ : other ≠ lease) :
    other ∈ leases.eraseIdx index := by
  obtain ⟨inside, here⟩ := List.getElem?_eq_some_iff.mp found
  have perm := List.getElem_cons_eraseIdx_perm inside
  rw [here] at perm
  exact (List.mem_cons.mp (perm.mem_iff.mpr member)).resolve_left differ

theorem claims_pos {leases : List DemandLease} {lease : DemandLease} (member : lease ∈ leases) :
    0 < claims leases lease.entry :=
  List.countP_pos_iff.mpr ⟨lease, member, by simp⟩

theorem claims_eq_zero {leases : List DemandLease} {entry : Nat}
    (other : ∀ lease ∈ leases, lease.entry ≠ entry) : claims leases entry = 0 :=
  List.countP_eq_zero.mpr fun lease member => by simpa using other lease member

namespace Cache

structure Sound (cache : Cache request error) : Prop where
  owned : cache.leases ≠ [] → cache.alive = true
  released : cache.alive = false → ∀ key, cache.entries key = none
  stored : ∀ lease ∈ cache.leases, cache.entries lease.key = some lease.entry
  counted : ∀ entry, cache.demand entry = claims cache.leases entry + claims cache.dropping entry
  distinct : ∀ key other entry, cache.entries key = some entry → cache.entries other = some entry →
    key = other
  keyed : ∀ lease ∈ cache.dropping, ∀ key, cache.entries key = some lease.entry → key = lease.key
  pending : ∀ key entry, cache.entries key = some entry → cache.demand entry = 0 →
    { key, entry } ∈ cache.checking
  fresh : ∀ key entry, cache.entries key = some entry → entry < cache.allocated
  named : ∀ lease ∈ cache.leases ++ cache.dropping, lease.entry < cache.allocated

namespace Sound

variable {cache : Cache request error}

theorem start (timing : Timing) (deviceId : String) :
    (Cache.start timing deviceId : Cache request error).Sound := by
  constructor <;> simp [Cache.start, claims]

/-- What a key maps to before it is demanded: an entry nobody holds under another key. -/
theorem acquire (sound : cache.Sound) (alive : cache.alive = true) (key : ChangeRequestCacheKey)
    (now : Nat) : (cache.acquire key now).Sound := by
  cases found : cache.entries key with
  | some entry =>
      simp only [Cache.acquire, orInsert, found]
      have known := sound.fresh key entry found
      constructor
      · exact fun _ => alive
      · exact sound.released
      · intro lease member
        rcases List.mem_append.mp member with old | new
        · exact sound.stored lease old
        · cases List.mem_singleton.mp new
          exact found
      · intro other
        simp only [claims_append, claims_single, Function.update_apply]
        have := sound.counted other
        by_cases same : other = entry
        · subst same
          simp only [if_true]
          omega
        · simp only [same, Ne.symm same, if_false]
          omega
      · exact sound.distinct
      · exact sound.keyed
      · intro other held stored none
        simp only [Function.update_apply] at none
        split at none
        · omega
        · exact sound.pending other held stored none
      · exact sound.fresh
      · intro lease member
        simp only [List.mem_append, List.mem_singleton] at member
        rcases member with (old | rfl) | old
        · exact sound.named lease (List.mem_append_left _ old)
        · exact known
        · exact sound.named lease (List.mem_append_right _ old)
  | none =>
      simp only [Cache.acquire, orInsert, found]
      have unused : ∀ lease ∈ cache.leases ++ cache.dropping, lease.entry ≠ cache.allocated := by
        intro lease member
        exact Nat.ne_of_lt (sound.named lease member)
      have another : ∀ {other entry}, other ≠ key →
          Function.update cache.entries key (some cache.allocated) other = some entry →
          cache.entries other = some entry := by
        intro other entry differ stored
        rwa [Function.update_of_ne differ] at stored
      have newest : ∀ {other entry}, other = key →
          Function.update cache.entries key (some cache.allocated) other = some entry →
          entry = cache.allocated := by
        intro other entry same stored
        rw [same, Function.update_self] at stored
        exact (Option.some.inj stored).symm
      constructor
      · exact fun _ => alive
      · intro dead
        rw [alive] at dead
        cases dead
      · intro lease member
        rcases List.mem_append.mp member with old | new
        · have stored := sound.stored lease old
          have differ : lease.key ≠ key := by
            intro same
            rw [same, found] at stored
            cases stored
          exact (Function.update_of_ne differ _ _).trans stored
        · cases List.mem_singleton.mp new
          exact Function.update_self _ _ _
      · intro other
        simp only [claims_append, claims_single, Function.update_apply]
        have := sound.counted other
        by_cases same : other = cache.allocated
        · subst same
          have live : claims cache.leases cache.allocated = 0 :=
            claims_eq_zero fun lease member => unused lease (List.mem_append_left _ member)
          have dropped : claims cache.dropping cache.allocated = 0 :=
            claims_eq_zero fun lease member => unused lease (List.mem_append_right _ member)
          simp only [if_true]
          omega
        · simp only [same, Ne.symm same, if_false]
          omega
      · intro first second entry here there
        by_cases same : first = key
        · by_cases also : second = key
          · exact same.trans also.symm
          · exact absurd (newest same here) (Nat.ne_of_lt (sound.fresh second entry (another also there)))
        · by_cases also : second = key
          · exact absurd (newest also there) (Nat.ne_of_lt (sound.fresh first entry (another same here)))
          · exact sound.distinct first second entry (another same here) (another also there)
      · intro lease member other stored
        by_cases same : other = key
        · exact absurd (newest same stored) (unused lease (List.mem_append_right _ member))
        · exact sound.keyed lease member other (another same stored)
      · intro other entry stored none
        by_cases same : other = key
        · have same := newest same stored
          subst same
          simp at none
        · have low := sound.fresh other entry (another same stored)
          simp only [Function.update_apply, Nat.ne_of_lt low, if_false] at none
          exact sound.pending other entry (another same stored) none
      · intro other entry stored
        by_cases same : other = key
        · exact Nat.lt_succ_of_le (Nat.le_of_eq (newest same stored))
        · exact Nat.lt_succ_of_lt (sound.fresh other entry (another same stored))
      · intro lease member
        simp only [List.mem_append, List.mem_singleton] at member
        rcases member with (old | rfl) | old
        · exact Nat.lt_succ_of_lt (sound.named lease (List.mem_append_left _ old))
        · exact Nat.lt_succ_self _
        · exact Nat.lt_succ_of_lt (sound.named lease (List.mem_append_right _ old))

/-- A live lease finds its entry. -/
theorem refresh (sound : cache.Sound) {lease : DemandLease} (live : lease ∈ cache.leases)
    (lookup : Lookup request error) :
    ∃ after, cache.refresh lease lookup = .ok after ∧ after.Sound := by
  have found := sound.stored lease live
  simp only [Cache.refresh, found]
  exact ⟨_, rfl, sound.owned, sound.released, sound.stored, sound.counted, sound.distinct,
    sound.keyed, sound.pending, sound.fresh, sound.named⟩

theorem drop (sound : cache.Sound) {index : Nat} {lease : DemandLease}
    (found : cache.leases[index]? = some lease) :
    ({ cache with
        leases := cache.leases.eraseIdx index
        dropping := cache.dropping ++ [lease] } : Cache request error).Sound := by
  have live : lease ∈ cache.leases := List.mem_of_getElem? found
  have stays : ∀ other ∈ cache.leases.eraseIdx index, other ∈ cache.leases :=
    fun other member => (List.eraseIdx_sublist _ _).mem member
  constructor
  · exact fun _ => sound.owned (List.ne_nil_of_mem live)
  · exact sound.released
  · exact fun other member => sound.stored other (stays other member)
  · intro entry
    simp only [claims_append]
    have := sound.counted entry
    have := claims_eraseIdx found entry
    omega
  · exact sound.distinct
  · intro other member key stored
    rcases List.mem_append.mp member with old | new
    · exact sound.keyed other old key stored
    · cases List.mem_singleton.mp new
      exact sound.distinct key lease.key lease.entry stored (sound.stored lease live)
  · exact sound.pending
  · exact sound.fresh
  · intro other member
    simp only [List.mem_append, List.mem_singleton] at member
    rcases member with old | old | rfl
    · exact sound.named other (List.mem_append_left _ (stays other old))
    · exact sound.named other (List.mem_append_right _ old)
    · exact sound.named other (List.mem_append_left _ live)

/-- The demand of an entry falls to zero only with its key's eviction to come. -/
theorem decrement (sound : cache.Sound) {index : Nat} {lease : DemandLease}
    (found : cache.dropping[index]? = some lease) :
    (Cache.decrement { cache with dropping := cache.dropping.eraseIdx index } lease).Sound := by
  have dropped : lease ∈ cache.dropping := List.mem_of_getElem? found
  have stays : ∀ other ∈ cache.dropping.eraseIdx index, other ∈ cache.dropping :=
    fun other member => (List.eraseIdx_sublist _ _).mem member
  have demanded : 0 < cache.demand lease.entry := by
    have := sound.counted lease.entry
    have := claims_pos dropped
    omega
  constructor
  · exact sound.owned
  · exact sound.released
  · exact sound.stored
  · intro entry
    simp only [Cache.decrement, Function.update_apply]
    have := sound.counted entry
    have split := claims_eraseIdx found entry
    rw [claims_single] at split
    by_cases same : entry = lease.entry
    · subst same
      simp only [if_true] at split ⊢
      omega
    · simp only [same, Ne.symm same, if_false] at split ⊢
      omega
  · exact sound.distinct
  · exact fun other member => sound.keyed other (stays other member)
  · intro key entry stored none
    simp only [Cache.decrement, Function.update_apply] at stored none ⊢
    by_cases same : entry = lease.entry
    · subst same
      have : key = lease.key := sound.keyed lease dropped key stored
      subst this
      rw [if_pos rfl] at none
      rw [if_neg (by omega)]
      exact List.mem_append_right _ (List.mem_singleton_self _)
    · rw [if_neg same] at none
      have waiting := sound.pending key entry stored none
      split
      · exact waiting
      · exact List.mem_append_left _ waiting
  · exact sound.fresh
  · intro other member
    rcases List.mem_append.mp member with old | old
    · exact sound.named other (List.mem_append_left _ old)
    · exact sound.named other (List.mem_append_right _ (stays other old))

/-- An entry is evicted only where no live lease has it. -/
theorem evict (sound : cache.Sound) {index : Nat} {lease : DemandLease}
    (found : cache.checking[index]? = some lease) :
    (Cache.evict { cache with checking := cache.checking.eraseIdx index } lease).Sound := by
  unfold Cache.evict
  split
  · rename_i last
    obtain ⟨alive, cached, none⟩ := last
    have another : ∀ {key entry},
        Function.update cache.entries lease.key Option.none key = some entry →
        key ≠ lease.key ∧ cache.entries key = some entry := by
      intro key entry stored
      by_cases same : key = lease.key
      · rw [same, Function.update_self] at stored
        cases stored
      · rw [Function.update_of_ne same] at stored
        exact ⟨same, stored⟩
    constructor
    · exact sound.owned
    · intro dead
      rw [alive] at dead
      cases dead
    · intro other member
      have stored := sound.stored other member
      have differ : other.key ≠ lease.key := by
        intro same
        rw [same, cached] at stored
        have held : 0 < claims cache.leases other.entry := claims_pos member
        rw [← Option.some.inj stored] at held
        have zero : cache.demand lease.entry = 0 := none
        have := sound.counted lease.entry
        omega
      exact (Function.update_of_ne differ _ _).trans stored
    · exact sound.counted
    · exact fun key other entry here there => sound.distinct key other entry (another here).2 (another there).2
    · exact fun other member key stored => sound.keyed other member key (another stored).2
    · intro key entry stored zero
      obtain ⟨differ, before⟩ := another stored
      apply mem_eraseIdx found (sound.pending key entry before zero)
      intro same
      exact differ (congrArg DemandLease.key same)
    · exact fun key entry stored => sound.fresh key entry (another stored).2
    · exact sound.named
  · rename_i kept
    refine ⟨sound.owned, sound.released, sound.stored, sound.counted, sound.distinct, sound.keyed, ?_,
      sound.fresh, sound.named⟩
    intro key entry stored zero
    apply mem_eraseIdx found (sound.pending key entry stored zero)
    intro same
    subst same
    -- the check would have evicted the entry this is the last drop of
    cases alive : cache.alive with
    | true => exact kept ⟨alive, stored, zero⟩
    | false =>
        rw [sound.released alive] at stored
        cases stored

theorem release (sound : cache.Sound) (none : cache.leases = []) :
    ({ cache with alive := false, entries := fun _ => Option.none } : Cache request error).Sound := by
  refine ⟨?_, ?_, ?_, sound.counted, ?_, ?_, ?_, ?_, sound.named⟩ <;> simp [none]

theorem next (sound : cache.Sound) (action : Action request error) :
    ∃ after, cache.next action = .ok after ∧ after.Sound := by
  cases action with
  | acquire key now =>
      refine ⟨_, rfl, ?_⟩
      split
      · rename_i alive
        exact sound.acquire alive key now
      · exact sound
  | refresh index lookup =>
      cases found : cache.leases[index]? with
      | some lease =>
          simp only [Cache.next, found]
          exact sound.refresh (List.mem_of_getElem? found) lookup
      | none => exact ⟨cache, by simp only [Cache.next, found], sound⟩
  | drop index =>
      cases found : cache.leases[index]? with
      | some lease => exact ⟨_, by simp only [Cache.next, found], sound.drop found⟩
      | none => exact ⟨cache, by simp only [Cache.next, found], sound⟩
  | decrement index =>
      cases found : cache.dropping[index]? with
      | some lease => exact ⟨_, by simp only [Cache.next, found], sound.decrement found⟩
      | none => exact ⟨cache, by simp only [Cache.next, found], sound⟩
  | evict index =>
      cases found : cache.checking[index]? with
      | some lease => exact ⟨_, by simp only [Cache.next, found], sound.evict found⟩
      | none => exact ⟨cache, by simp only [Cache.next, found], sound⟩
  | release =>
      refine ⟨_, rfl, ?_⟩
      split
      · rename_i none
        exact sound.release (List.isEmpty_iff.mp none)
      · exact sound

theorem run (sound : cache.Sound) (actions : List (Action request error)) :
    ∃ after, cache.run actions = .ok after ∧ after.Sound := by
  unfold Cache.run
  induction actions generalizing cache with
  | nil => exact ⟨cache, rfl, sound⟩
  | cons action actions ih =>
      obtain ⟨middle, stepped, kept⟩ := sound.next action
      obtain ⟨after, ran, held⟩ := ih kept
      exact ⟨after, by rw [List.foldlM_cons, stepped]; exact ran, held⟩

/-- With no lease live and no drop on its way, nothing holds an entry in the map. -/
theorem empty (sound : cache.Sound) (live : cache.leases = []) (dropping : cache.dropping = [])
    (checking : cache.checking = []) (key : ChangeRequestCacheKey) : cache.entries key = none := by
  cases found : cache.entries key with
  | none => rfl
  | some entry =>
      have zero : cache.demand entry = 0 := by
        rw [sound.counted, live, dropping]
        rfl
      have waiting := sound.pending key entry found zero
      rw [checking] at waiting
      cases waiting

end Sound

end Cache

/-- No refresh panics, a live lease has the entry of its key, the demand counts the leases
that have not given theirs back, and the last drop empties the map. -/
theorem leased_entry_kept (timing : Timing) (deviceId : String)
    (actions : List (Action request error)) :
    ∃ cache, (Cache.start timing deviceId).run actions = .ok cache ∧
      (∀ lease ∈ cache.leases, cache.entries lease.key = some lease.entry) ∧
      (∀ lease ∈ cache.leases, ∀ other ∈ cache.leases, lease.key = other.key →
        lease.entry = other.entry) ∧
      (∀ entry, cache.demand entry = claims cache.leases entry + claims cache.dropping entry) ∧
      (cache.leases = [] → cache.dropping = [] → cache.checking = [] →
        ∀ key, cache.entries key = none) := by
  obtain ⟨cache, ran, sound⟩ := (Cache.Sound.start timing deviceId).run actions
  refine ⟨cache, ran, sound.stored, ?_, sound.counted, sound.empty⟩
  intro lease member other also same
  have here := sound.stored lease member
  rw [same, sound.stored other also] at here
  exact (Option.some.inj here).symm

end Zeron.ChangeRequests
