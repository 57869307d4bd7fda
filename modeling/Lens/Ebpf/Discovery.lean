import Mathlib.Data.List.Basic
import Lens.Core
import Lens.Text.Addr

/-!
# The cache of discovered connections

The probe reports completed outbound connections, and the proxy asks for the process
behind the endpoint it accepted.  `DiscoveryCache` is a queue of the last reports that is
searched from its end.  One predicate, `endpointsMatch`, accepts both a report of this very
endpoint and one with an unspecified address, so the search stops at the newer of the two.
-/

namespace Lens.Ebpf

open List
open Net (IpAddr SocketAddr)

structure ConnectionRecord where
  timestampNanos : Nat
  pid : Nat
  uid : Nat
  localAddr : SocketAddr
  remote : SocketAddr
  process : String
deriving DecidableEq, Repr

def ConnectionRecord.identity (record : ConnectionRecord) : ServiceIdentity where
  pid := some record.pid
  process := some record.process
  service := some record.process
  container := none

structure DiscoveryCache where
  capacity : Nat
  records : List ConnectionRecord
  evicted : Nat
deriving DecidableEq, Repr

/-- The last element with a property, and the list without it. -/
def takeLast {α : Type} (p : α → Bool) : List α → Option (α × List α)
  | [] => none
  | x :: xs =>
    match takeLast p xs with
    | some (y, ys) => some (y, x :: ys)
    | none => if p x then some (x, xs) else none

def isUnspecified : IpAddr → Bool
  | .v4 ip => ip.octets.all (· == 0)
  | .v6 ip => ip.octets.all (· == 0)

def isIpv4 : SocketAddr → Bool
  | .v4 _ _ => true
  | .v6 _ _ _ _ => false

def endpointsMatch (discovered accepted : SocketAddr) : Bool :=
  discovered == accepted ||
    (discovered.port == accepted.port && isUnspecified discovered.ip &&
      isIpv4 discovered == isIpv4 accepted)

namespace DiscoveryCache

def new (capacity : Nat) : DiscoveryCache := ⟨capacity, [], 0⟩

def insert (cache : DiscoveryCache) (record : ConnectionRecord) (lensPid : Nat) :
    DiscoveryCache :=
  if record.pid = lensPid then cache
  else if cache.records.length = cache.capacity then
    { cache with
      records := cache.records.tail ++ [record], evicted := min (cache.evicted + 1) (2 ^ 64 - 1) }
  else { cache with records := cache.records ++ [record] }

/-- `rposition` with the match, then `remove`. -/
def takeIdentity (cache : DiscoveryCache) (addr : SocketAddr) :
    Option ServiceIdentity × DiscoveryCache :=
  match takeLast (fun record => endpointsMatch record.localAddr addr) cache.records with
  | none => (none, cache)
  | some (record, records) => (some record.identity, { cache with records })

end DiscoveryCache

/-- What is done to a cache. -/
inductive Op where
  | insert (record : ConnectionRecord)
  | take (addr : SocketAddr)

def DiscoveryCache.step (lensPid : Nat) (cache : DiscoveryCache) : Op → DiscoveryCache
  | .insert record => cache.insert record lensPid
  | .take addr => (cache.takeIdentity addr).2

def DiscoveryCache.run (lensPid : Nat) (cache : DiscoveryCache) (ops : List Op) : DiscoveryCache :=
  ops.foldl (step lensPid) cache

/-! ## Searching from the end -/

section

variable {α : Type} {p : α → Bool} {x : α} {post l : List α}

theorem takeLast_eq_none (h : ∀ y ∈ l, p y = false) : takeLast p l = none := by
  induction l with
  | nil => rfl
  | cons x xs ih =>
    rw [forall_mem_cons] at h
    simp [takeLast, ih h.2, h.1]

theorem takeLast_append_cons (pre : List α) (hx : p x = true) (h : ∀ y ∈ post, p y = false) :
    takeLast p (pre ++ x :: post) = some (x, pre ++ post) := by
  induction pre with
  | nil => simp [takeLast, takeLast_eq_none h, hx]
  | cons y pre ih => simp [takeLast, ih]

/-- A list has a last element with a property, or none. -/
theorem last_cases (p : α → Bool) (l : List α) :
    (∀ y ∈ l, p y = false) ∨
      ∃ pre x post, l = pre ++ x :: post ∧ p x = true ∧ ∀ y ∈ post, p y = false := by
  induction l with
  | nil => exact .inl (forall_mem_nil _)
  | cons x xs ih =>
    obtain hnone | ⟨pre, y, post, rfl, hy, hpost⟩ := ih
    · cases hx : p x with
      | false => exact .inl (forall_mem_cons.mpr ⟨hx, hnone⟩)
      | true => exact .inr ⟨[], x, xs, rfl, hx, hnone⟩
    · exact .inr ⟨x :: pre, y, post, rfl, hy, hpost⟩

end

/-! ## Runs -/

namespace DiscoveryCache

/-- Within its capacity, and without a record of Lens itself. -/
structure Ok (lensPid capacity : Nat) (cache : DiscoveryCache) : Prop where
  sized : cache.capacity = capacity
  bounded : cache.records.length ≤ capacity
  foreign : ∀ record ∈ cache.records, record.pid ≠ lensPid

variable {lensPid capacity : Nat} {cache : DiscoveryCache}

theorem Ok.insert (h : cache.Ok lensPid capacity) (hpos : 0 < capacity)
    (record : ConnectionRecord) : (cache.insert record lensPid).Ok lensPid capacity := by
  have hbounded := h.bounded
  have hcapacity := h.sized
  unfold DiscoveryCache.insert
  split
  · exact h
  next hpid =>
  have hlast : ∀ r ∈ [record], r.pid ≠ lensPid := forall_mem_singleton.mpr hpid
  split
  next hfull =>
    refine ⟨hcapacity, ?_, forall_mem_append.mpr ⟨fun r hr => ?_, hlast⟩⟩
    · simp only [length_append, length_tail, length_singleton]
      omega
    · exact h.foreign r (mem_of_mem_tail hr)
  next hroom =>
    refine ⟨hcapacity, ?_, forall_mem_append.mpr ⟨h.foreign, hlast⟩⟩
    simp only [length_append, length_singleton]
    omega

theorem takeIdentity_of_last {addr : SocketAddr} {pre post : List ConnectionRecord}
    {record : ConnectionRecord} (h : cache.records = pre ++ record :: post)
    (hr : endpointsMatch record.localAddr addr = true)
    (hpost : ∀ r ∈ post, endpointsMatch r.localAddr addr = false) :
    cache.takeIdentity addr = (some record.identity, { cache with records := pre ++ post }) := by
  have htake := takeLast_append_cons (p := fun r => endpointsMatch r.localAddr addr) pre hr hpost
  rw [takeIdentity, h, htake]

theorem Ok.take (h : cache.Ok lensPid capacity) (addr : SocketAddr) :
    (cache.takeIdentity addr).2.Ok lensPid capacity := by
  obtain hnone | ⟨pre, r, post, hrecords, hr, hpost⟩ :=
    last_cases (fun record => endpointsMatch record.localAddr addr) cache.records
  · rw [takeIdentity, takeLast_eq_none hnone]
    exact h
  · rw [takeIdentity_of_last hrecords hr hpost]
    have hbounded := h.bounded
    have hforeign := h.foreign
    rw [hrecords] at hbounded hforeign
    refine ⟨h.sized, ?_, fun q hq => hforeign q ?_⟩
    · simp only [length_append, length_cons] at hbounded ⊢
      omega
    · exact (sublist_append_right [r] post).append_left pre |>.subset hq

theorem Ok.run (h : cache.Ok lensPid capacity) (hpos : 0 < capacity) (ops : List Op) :
    (cache.run lensPid ops).Ok lensPid capacity := by
  induction ops generalizing cache with
  | nil => exact h
  | cons op ops ih =>
    cases op with
    | insert record => exact ih (h.insert hpos record)
    | take addr => exact ih (h.take addr)

/-! ## The newest exact match -/

/-- What the cache is for: the newest record of this very endpoint is returned and nothing
else is removed, another one is used only if there is none, no record of Lens is returned,
and a full cache gives up its oldest record for a new one. -/
structure Discovers (lensPid capacity : Nat) (cache : DiscoveryCache) (addr : SocketAddr) :
    Prop where
  exact : ∀ {pre record post}, cache.records = pre ++ record :: post → record.localAddr = addr →
    (∀ r ∈ post, r.localAddr ≠ addr) →
    cache.takeIdentity addr = (some record.identity, { cache with records := pre ++ post })
  wildcard : (∀ r ∈ cache.records, r.localAddr ≠ addr) →
    ∀ {pre record post}, cache.records = pre ++ record :: post →
    endpointsMatch record.localAddr addr = true →
    (∀ r ∈ post, endpointsMatch r.localAddr addr = false) →
    cache.takeIdentity addr = (some record.identity, { cache with records := pre ++ post })
  missing : (∀ r ∈ cache.records, endpointsMatch r.localAddr addr = false) →
    cache.takeIdentity addr = (none, cache)
  foreign : ∀ identity, (cache.takeIdentity addr).1 = some identity → identity.pid ≠ some lensPid
  bounded : cache.records.length ≤ capacity
  evicts : ∀ record, record.pid ≠ lensPid → (cache.insert record lensPid).records =
    (cache.records ++ [record]).drop (cache.records.length + 1 - capacity)

/-- A newer record with an unspecified address stands before the newest exact one. -/
def Shadowed (cache : DiscoveryCache) (addr : SocketAddr) : Prop :=
  ∃ pre record post, cache.records = pre ++ record :: post ∧ record.localAddr = addr ∧
    (∀ r ∈ post, r.localAddr ≠ addr) ∧ ∃ r ∈ post, endpointsMatch r.localAddr addr = true

theorem endpointsMatch_self (addr : SocketAddr) : endpointsMatch addr addr = true := by
  simp [endpointsMatch]

/-- In every state that inserts and lookups reach, and for every endpoint, the cache does
what it is for exactly if no newer unspecified record shadows the exact one. -/
theorem discovers_iff (lensPid : Nat) {capacity : Nat} (hpos : 0 < capacity) (ops : List Op)
    (addr : SocketAddr) :
    ((new capacity).run lensPid ops).Discovers lensPid capacity addr ↔
      ¬ ((new capacity).run lensPid ops).Shadowed addr := by
  have hnew : (new capacity).Ok lensPid capacity := ⟨rfl, Nat.zero_le _, forall_mem_nil _⟩
  have hok := hnew.run hpos ops
  generalize (new capacity).run lensPid ops = cache at hok ⊢
  constructor
  · rintro h ⟨pre, record, post, hrecords, rfl, hexact, r, hr, hmatch⟩
    obtain hnone | ⟨before, q, after, rfl, hq, hafter⟩ :=
      last_cases (fun q => endpointsMatch q.localAddr record.localAddr) post
    · rw [hnone r hr] at hmatch
      cases hmatch
    -- the newest match is in `post`, so the exact record is still there afterwards
    have hsplit : cache.records = (pre ++ record :: before) ++ q :: after := by
      simpa using hrecords
    have htaken := takeIdentity_of_last hsplit hq hafter
    have hmem : record ∈ before ++ q :: after := by
      rw [h.exact hrecords rfl hexact] at htaken
      have hlist : pre ++ (before ++ q :: after) = pre ++ record :: (before ++ after) := by
        simpa using congrArg (fun result => result.2.records) htaken
      rw [append_cancel_left hlist]
      exact mem_cons_self
    exact hexact record hmem rfl
  · intro hclear
    refine ⟨fun hrecords hr hpost => ?_, fun _ => takeIdentity_of_last, fun hnone => ?_, ?_,
      hok.bounded, fun record hpid => ?_⟩
    · refine takeIdentity_of_last hrecords (hr ▸ endpointsMatch_self _) fun r hmem => ?_
      exact Bool.eq_false_iff.mpr fun hmatch =>
        hclear ⟨_, _, _, hrecords, hr, hpost, r, hmem, hmatch⟩
    · rw [takeIdentity, takeLast_eq_none hnone]
    · intro identity hidentity
      obtain hnone | ⟨pre, r, post, hrecords, hr, hpost⟩ :=
        last_cases (fun record => endpointsMatch record.localAddr addr) cache.records
      · rw [takeIdentity, takeLast_eq_none hnone] at hidentity
        cases hidentity
      · rw [takeIdentity_of_last hrecords hr hpost] at hidentity
        obtain rfl := Option.some.inj hidentity
        have hforeign := hok.foreign r (by simp [hrecords])
        simpa [ConnectionRecord.identity] using hforeign
    · have hbounded := hok.bounded
      have hcapacity := hok.sized
      rw [DiscoveryCache.insert, if_neg hpid]
      split
      next hfull =>
        rw [show cache.records.length + 1 - capacity = 1 by omega, drop_one,
          tail_append_of_ne_nil (ne_nil_of_length_pos (by omega))]
      next hroom => rw [show cache.records.length + 1 - capacity = 0 by omega, drop_zero]

def exactRecord : ConnectionRecord := ⟨1, 10, 0, .v4 .localhost 5000, .v4 .localhost 80, "client"⟩

def wildcardRecord : ConnectionRecord :=
  ⟨2, 20, 0, .v4 ⟨[0, 0, 0, 0], rfl⟩ 5000, .v4 .localhost 81, "other"⟩

/-- A report of the endpoint `127.0.0.1:5000`, and then one of `0.0.0.0:5000`. -/
def wildcardLast : List Op := [.insert exactRecord, .insert wildcardRecord]

/-- The reports in the other order. -/
theorem discovers_exactLast :
    ((new 4).run 1 wildcardLast.reverse).Discovers 1 4 (.v4 .localhost 5000) := by
  refine (discovers_iff 1 (by decide) wildcardLast.reverse _).mpr ?_
  rintro ⟨pre, record, post, hrecords, haddr, -, r, hr, -⟩
  have hlist : [wildcardRecord, exactRecord] = pre ++ record :: post := hrecords
  rcases pre with _ | ⟨_, _ | ⟨_, pre⟩⟩
  · obtain ⟨rfl, -⟩ := cons.inj hlist
    exact absurd haddr (by decide)
  · obtain ⟨-, hlast⟩ := cons.inj hlist
    obtain ⟨-, rfl⟩ := cons.inj hlast
    cases hr
  · simp at hlist

/-- The process of the newer report is returned for the endpoint of the older one. -/
theorem wildcard_shadows :
    ¬ ((new 4).run 1 wildcardLast).Discovers 1 4 (.v4 .localhost 5000) := by
  intro h
  have hrecords : ((new 4).run 1 wildcardLast).records = [] ++ exactRecord :: [wildcardRecord] :=
    rfl
  have htaken := h.exact hrecords rfl (by decide)
  have hpid := congrArg (fun result => result.1.bind (·.pid)) htaken
  revert hpid
  decide

end DiscoveryCache

end Lens.Ebpf
