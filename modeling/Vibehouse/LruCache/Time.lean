import Mathlib.Data.Finset.Basic

/-! # The time-based LRU cache

`LRUTimeCache` keeps a hash set of keys and a queue of the same keys in insertion order, each
with the instant of its last insertion. Expiry pops from the front of the queue while the front
element is older than the time to live, and stops at the first live one. The `raw_*` calls skip
the purge. Every call that reads the clock takes the instant it reads as an argument; `insert`
reads it twice, once for its purge and once for the new element.

`Inv` is the representation invariant relative to a ghost map `stamp`, the instant of each key's
last insertion that no removal followed, and to the last clock reading. The queue's keys are
distinct and are the set's keys, the queue is sorted by instant, and every key inserted less
than a time to live before the clock is in the set. Each call keeps it (one lemma per call), so
it holds over every run of calls under a clock that does not go back. After the purge of
`contains` every element left is live, which makes `contains` answer from `stamp` alone. -/

namespace Vibehouse.LruCache

variable {Key : Type} [DecidableEq Key]

/-! ## The model -/

/-- `Element`: a key and the instant it was inserted. -/
structure Element (Key : Type) where
  key : Key
  inserted : Nat

/-- `LRUTimeCache`: the duplicate set, the queue in insertion order and the time to live. -/
structure LRUTimeCache (Key : Type) where
  map : Finset Key
  list : List (Element Key)
  ttl : Nat

namespace LRUTimeCache

/-- `new`. -/
def new (ttl : Nat) : LRUTimeCache Key := ⟨∅, [], ttl⟩

/-- `raw_insert`: a new key goes to the back of the queue; a known one is moved there with the
new instant. `none` is a panic of an `expect`. -/
def rawInsert (c : LRUTimeCache Key) (key : Key) (now : Nat) : Option (Bool × LRUTimeCache Key) :=
  let isNew := key ∉ c.map
  let map := insert key c.map
  if isNew then some (true, { c with map, list := c.list ++ [⟨key, now⟩] })
  else do
    let position ← c.list.findIdx? (·.key = key)
    let element ← c.list[position]?
    let list := c.list.eraseIdx position
    some (false, { c with map, list := list ++ [{ element with inserted := now }] })

/-- `raw_remove`. -/
def rawRemove (c : LRUTimeCache Key) (key : Key) : Option (Bool × LRUTimeCache Key) :=
  if key ∈ c.map then do
    let position ← c.list.findIdx? (·.key = key)
    let _ ← c.list[position]?
    some (true, { c with map := c.map.erase key, list := c.list.eraseIdx position })
  else some (false, c)

/-- The expiry loop: pop the front while it is expired, dropping its key from the set. -/
def expireLoop (ttl now : Nat) :
    List (Element Key) → Finset Key → List Key → List (Element Key) × Finset Key × List Key
  | [], map, removed => ([], map, removed)
  | e :: rest, map, removed =>
    if e.inserted + ttl > now then (e :: rest, map, removed)
    else expireLoop ttl now rest (map.erase e.key) (removed ++ [e.key])

/-- `remove_expired`: the keys removed, and the cache after. -/
def removeExpired (c : LRUTimeCache Key) (now : Nat) : List Key × LRUTimeCache Key :=
  if c.list.isEmpty then ([], c)
  else
    let (list, map, removed) := expireLoop c.ttl now c.list c.map []
    (removed, { c with map, list })

/-- `update`: the loop of `remove_expired`, without collecting the keys. -/
def update (c : LRUTimeCache Key) (now : Nat) : LRUTimeCache Key :=
  (c.removeExpired now).2

/-- `insert`: `update`, then the body of `raw_insert`. -/
def insert (c : LRUTimeCache Key) (key : Key) (nowUpdate nowInsert : Nat) :
    Option (Bool × LRUTimeCache Key) :=
  (c.update nowUpdate).rawInsert key nowInsert

/-- `contains`: the set after the purge. -/
def contains (c : LRUTimeCache Key) (key : Key) (now : Nat) : Bool × LRUTimeCache Key :=
  let c := c.update now
  (decide (key ∈ c.map), c)

end LRUTimeCache

/-! ## Runs of calls -/

/-- A call on the cache, with the instants it reads from the clock. -/
inductive Call (Key : Type)
  | rawInsert (key : Key) (now : Nat)
  | insert (key : Key) (nowUpdate nowInsert : Nat)
  | rawRemove (key : Key)
  | removeExpired (now : Nat)
  | update (now : Nat)
  | contains (key : Key) (now : Nat)

namespace Call

/-- The clock readings of a call, in order. -/
def reads : Call Key → List Nat
  | rawInsert _ now | removeExpired now | update now | contains _ now => [now]
  | insert _ nowUpdate nowInsert => [nowUpdate, nowInsert]
  | rawRemove _ => []

/-- A call on the cache; `none` is a panic. -/
def apply (c : LRUTimeCache Key) : Call Key → Option (LRUTimeCache Key)
  | rawInsert key now => Prod.snd <$> c.rawInsert key now
  | insert key nowUpdate nowInsert => Prod.snd <$> c.insert key nowUpdate nowInsert
  | rawRemove key => Prod.snd <$> c.rawRemove key
  | removeExpired now => some (c.removeExpired now).2
  | update now => some (c.update now)
  | contains key now => some (c.contains key now).2

/-- What a call does to the instant of each key's last insertion that no removal followed. -/
def stamp (s : Key → Option Nat) : Call Key → Key → Option Nat
  | rawInsert key now | insert key _ now => Function.update s key (some now)
  | rawRemove key => Function.update s key none
  | _ => s

end Call

/-- The calls one after another. -/
def runCalls (c : LRUTimeCache Key) (calls : List (Call Key)) : Option (LRUTimeCache Key) :=
  calls.foldlM Call.apply c

/-- The instant of the last insertion of each key that no removal followed. -/
def insertedAt (calls : List (Call Key)) : Key → Option Nat :=
  calls.foldl Call.stamp fun _ => none

/-! ## Finding a key in the queue -/

section Find

variable {l : List (Element Key)} {key : Key}

/-- In a queue of distinct keys, `position` finds the element of a key that is there, and
removing that position removes exactly the elements of that key. -/
theorem exists_findIdx?_of_mem (hnd : (l.map (·.key)).Nodup) (hk : ∃ e ∈ l, e.key = key) :
    ∃ i e, l.findIdx? (·.key = key) = some i ∧ l[i]? = some e ∧ e.key = key ∧
      ∀ x, x ∈ l.eraseIdx i ↔ x ∈ l ∧ x.key ≠ key := by
  have hsome : (l.findIdx? (·.key = key)).isSome := by
    rw [List.findIdx?_isSome, List.any_eq_true]
    simpa using hk
  obtain ⟨i, hi⟩ := Option.isSome_iff_exists.1 hsome
  obtain ⟨hlt, hkey, -⟩ := List.findIdx?_eq_some_iff_getElem.1 hi
  have hkey : l[i].key = key := by simpa using hkey
  refine ⟨i, l[i], hi, List.getElem?_eq_getElem hlt, hkey, fun x => ?_⟩
  rw [List.mem_eraseIdx_iff_getElem]
  constructor
  · rintro ⟨j, hj, hji, rfl⟩
    refine ⟨List.getElem_mem hj, fun hjk => hji ?_⟩
    -- two positions of one key are one position
    have hj' : j < (l.map (·.key)).length := by simpa using hj
    have hi' : i < (l.map (·.key)).length := by simpa using hlt
    have heq : (l.map (·.key))[j] = (l.map (·.key))[i] := by
      simp [hjk, hkey]
    exact (hnd.getElem_inj_iff).1 heq
  · rintro ⟨hx, hxk⟩
    obtain ⟨j, hj, rfl⟩ := List.getElem_of_mem hx
    exact ⟨j, hj, fun hji => hxk (by subst hji; exact hkey), rfl⟩

end Find

/-! ## The representation invariant -/

/-- The invariant of a cache, relative to the instant `stamp` of each key's last insertion that
no removal followed and to the last reading `clock` of the clock. -/
structure Inv (stamp : Key → Option Nat) (clock : Nat) (c : LRUTimeCache Key) : Prop where
  nodup : (c.list.map (·.key)).Nodup
  mem_map : ∀ k, k ∈ c.map ↔ ∃ e ∈ c.list, e.key = k
  sorted : c.list.Pairwise fun e e' => e.inserted ≤ e'.inserted
  le_clock : ∀ e ∈ c.list, e.inserted ≤ clock
  stamp_eq : ∀ e ∈ c.list, stamp e.key = some e.inserted
  mem_of_live : ∀ k t, stamp k = some t → clock < t + c.ttl → k ∈ c.map

section Inv

variable {stamp : Key → Option Nat} {clock now : Nat} {c : LRUTimeCache Key}

omit [DecidableEq Key] in
theorem inv_new (ttl : Nat) : Inv (fun _ => none) 0 (LRUTimeCache.new ttl : LRUTimeCache Key) :=
  ⟨List.nodup_nil, by simp [LRUTimeCache.new], List.Pairwise.nil, by simp [LRUTimeCache.new],
    by simp [LRUTimeCache.new], by simp⟩

omit [DecidableEq Key] in
/-- A later clock keeps the invariant: fewer keys are live. -/
theorem Inv.mono (hc : Inv stamp clock c) (hnow : clock ≤ now) : Inv stamp now c :=
  ⟨hc.nodup, hc.mem_map, hc.sorted, fun e he => (hc.le_clock e he).trans hnow, hc.stamp_eq,
    fun k t hk ht => hc.mem_of_live k t hk (by omega)⟩

/-- A key moved to, or put at, the back of the queue with the instant `now`. -/
theorem Inv.pushBack (hc : Inv stamp clock c) (hnow : clock ≤ now) {key : Key}
    {l : List (Element Key)} (hsub : l.Sublist c.list) (hmem : ∀ x, x ∈ l ↔ x ∈ c.list ∧ x.key ≠ key) :
    Inv (Function.update stamp key (some now)) now
      { c with map := insert key c.map, list := l ++ [⟨key, now⟩] } := by
  refine ⟨?_, fun k => ?_, ?_, ?_, ?_, ?_⟩
  · rw [List.map_append, List.nodup_append]
    refine ⟨hc.nodup.sublist (hsub.map _), by simp, ?_⟩
    intro a ha b hb
    obtain ⟨x, hx, rfl⟩ := List.mem_map.1 ha
    simp only [List.map_cons, List.map_nil, List.mem_singleton] at hb
    exact hb ▸ ((hmem x).1 hx).2
  · simp only [Finset.mem_insert, hc.mem_map, List.mem_append, List.mem_singleton]
    constructor
    · rintro (rfl | ⟨e, he, rfl⟩)
      · exact ⟨_, Or.inr rfl, rfl⟩
      · by_cases hek : e.key = key
        · exact ⟨_, Or.inr rfl, hek.symm⟩
        · exact ⟨e, Or.inl ((hmem e).2 ⟨he, hek⟩), rfl⟩
    · rintro ⟨e, (he | rfl), rfl⟩
      · exact Or.inr ⟨e, ((hmem e).1 he).1, rfl⟩
      · exact Or.inl rfl
  · rw [List.pairwise_append]
    refine ⟨hc.sorted.sublist hsub, List.pairwise_singleton _ _, ?_⟩
    intro a ha b hb
    rw [List.mem_singleton] at hb
    subst hb
    exact (hc.le_clock a ((hmem a).1 ha).1).trans hnow
  · intro e he
    rcases List.mem_append.1 he with he | he
    · exact (hc.le_clock e ((hmem e).1 he).1).trans hnow
    · rw [List.mem_singleton] at he
      subst he
      exact le_refl _
  · intro e he
    rcases List.mem_append.1 he with he | he
    · obtain ⟨he, hek⟩ := (hmem e).1 he
      rw [Function.update_of_ne hek]
      exact hc.stamp_eq e he
    · rw [List.mem_singleton] at he
      subst he
      simp
  · intro k t hk (ht : now < t + c.ttl)
    by_cases hkey : k = key
    · exact hkey ▸ Finset.mem_insert_self key c.map
    · rw [Function.update_of_ne hkey] at hk
      exact Finset.mem_insert_of_mem (hc.mem_of_live k t hk (by omega))

/-- A key taken out of the set and the queue. -/
theorem Inv.erase (hc : Inv stamp clock c) {key : Key} {l : List (Element Key)}
    (hsub : l.Sublist c.list) (hmem : ∀ x, x ∈ l ↔ x ∈ c.list ∧ x.key ≠ key) :
    Inv (Function.update stamp key none) clock { c with map := c.map.erase key, list := l } := by
  refine ⟨hc.nodup.sublist (hsub.map _), fun k => ?_, hc.sorted.sublist hsub,
    fun e he => hc.le_clock e ((hmem e).1 he).1, fun e he => ?_, fun k t hk ht => ?_⟩
  · simp only [Finset.mem_erase, hc.mem_map]
    constructor
    · rintro ⟨hk, e, he, rfl⟩
      exact ⟨e, (hmem e).2 ⟨he, hk⟩, rfl⟩
    · rintro ⟨e, he, rfl⟩
      exact ⟨((hmem e).1 he).2, e, ((hmem e).1 he).1, rfl⟩
  · obtain ⟨he, hek⟩ := (hmem e).1 he
    rw [Function.update_of_ne hek]
    exact hc.stamp_eq e he
  · have hkey : k ≠ key := by
      rintro rfl
      simp at hk
    rw [Function.update_of_ne hkey] at hk
    exact Finset.mem_erase.2 ⟨hkey, hc.mem_of_live k t hk ht⟩

/-- The front of the queue, expired, leaves the set and the queue; no live key goes with it. -/
theorem Inv.popExpired (hc : Inv stamp now c) {e : Element Key} {rest : List (Element Key)}
    (hlist : c.list = e :: rest) (hexp : e.inserted + c.ttl ≤ now) :
    Inv stamp now { c with map := c.map.erase e.key, list := rest } := by
  have hnd := hc.nodup
  rw [hlist, List.map_cons, List.nodup_cons] at hnd
  have hsorted := hc.sorted
  rw [hlist] at hsorted
  refine ⟨hnd.2, fun k => ?_, (List.pairwise_cons.1 hsorted).2,
    fun x hx => hc.le_clock x (hlist ▸ List.mem_cons_of_mem e hx),
    fun x hx => hc.stamp_eq x (hlist ▸ List.mem_cons_of_mem e hx),
    fun k t hk (ht : now < t + c.ttl) => ?_⟩
  · simp only [Finset.mem_erase, hc.mem_map, hlist, List.mem_cons]
    constructor
    · rintro ⟨hk, x, rfl | hx, rfl⟩
      · exact absurd rfl hk
      · exact ⟨x, hx, rfl⟩
    · rintro ⟨x, hx, rfl⟩
      exact ⟨fun hxe => hnd.1 (hxe ▸ List.mem_map_of_mem hx), x, Or.inr hx, rfl⟩
  · -- a live key is not the expired one
    have hke : k ≠ e.key := by
      rintro rfl
      rw [hc.stamp_eq e (hlist ▸ List.mem_cons_self)] at hk
      cases hk
      omega
    exact Finset.mem_erase.2 ⟨hke, hc.mem_of_live k t hk ht⟩

end Inv

/-! ## Each call keeps the invariant -/

section Calls

variable {stamp : Key → Option Nat} {clock now : Nat} {c : LRUTimeCache Key}

/-- `raw_insert` never panics, and moves the key's instant to `now`. -/
theorem rawInsert_inv (hc : Inv stamp clock c) (hnow : clock ≤ now) (key : Key) :
    ∃ b c', c.rawInsert key now = some (b, c') ∧ c'.ttl = c.ttl ∧
      Inv (Function.update stamp key (some now)) now c' := by
  by_cases hk : key ∈ c.map
  · -- a known key: its element leaves its place and goes to the back
    obtain ⟨i, e, hi, he, hekey, hmem⟩ := exists_findIdx?_of_mem hc.nodup ((hc.mem_map key).1 hk)
    have hmoved : { e with inserted := now } = (⟨key, now⟩ : Element Key) := by
      rw [← hekey]
    refine ⟨false, { c with map := insert key c.map, list := c.list.eraseIdx i ++ [⟨key, now⟩] },
      ?_, rfl, hc.pushBack hnow (List.eraseIdx_sublist _ _) hmem⟩
    simp [LRUTimeCache.rawInsert, hk, hi, he, hmoved]
  · have hmem : ∀ x, x ∈ c.list ↔ x ∈ c.list ∧ x.key ≠ key := fun x =>
      ⟨fun hx => ⟨hx, fun hxk => hk ((hc.mem_map key).2 ⟨x, hx, hxk⟩)⟩, And.left⟩
    exact ⟨true, { c with map := insert key c.map, list := c.list ++ [⟨key, now⟩] },
      by simp [LRUTimeCache.rawInsert, hk], rfl, hc.pushBack hnow (List.Sublist.refl _) hmem⟩

/-- `raw_remove` never panics, and forgets the key's instant. -/
theorem rawRemove_inv (hc : Inv stamp clock c) (key : Key) :
    ∃ b c', c.rawRemove key = some (b, c') ∧ c'.ttl = c.ttl ∧
      Inv (Function.update stamp key none) clock c' := by
  by_cases hk : key ∈ c.map
  · obtain ⟨i, e, hi, he, -, hmem⟩ := exists_findIdx?_of_mem hc.nodup ((hc.mem_map key).1 hk)
    exact ⟨true, { c with map := c.map.erase key, list := c.list.eraseIdx i },
      by simp [LRUTimeCache.rawRemove, hk, hi, he], rfl, hc.erase (List.eraseIdx_sublist _ _) hmem⟩
  · -- an unknown key has no element, so forgetting its instant changes nothing
    have hmem : ∀ x, x ∈ c.list ↔ x ∈ c.list ∧ x.key ≠ key := fun x =>
      ⟨fun hx => ⟨hx, fun hxk => hk ((hc.mem_map key).2 ⟨x, hx, hxk⟩)⟩, And.left⟩
    have h := hc.erase (List.Sublist.refl _) hmem
    rw [Finset.erase_eq_of_notMem hk] at h
    exact ⟨false, c, by simp [LRUTimeCache.rawRemove, hk], rfl, h⟩

/-- The expiry loop stops at a live element, so every element it leaves is live. -/
theorem expireLoop_inv : ∀ (list : List (Element Key)) (map : Finset Key) (removed : List Key)
    (ttl : Nat), Inv stamp now ⟨map, list, ttl⟩ →
    Inv stamp now ⟨(LRUTimeCache.expireLoop ttl now list map removed).2.1,
        (LRUTimeCache.expireLoop ttl now list map removed).1, ttl⟩ ∧
      ∀ e ∈ (LRUTimeCache.expireLoop ttl now list map removed).1, now < e.inserted + ttl
  | [], map, removed, ttl, hc => ⟨hc, by simp [LRUTimeCache.expireLoop]⟩
  | e :: rest, map, removed, ttl, hc => by
    unfold LRUTimeCache.expireLoop
    split
    · rename_i hlive
      have hlive : now < e.inserted + ttl := hlive
      refine ⟨hc, fun x hx => ?_⟩
      rcases List.mem_cons.1 hx with rfl | hx
      · exact hlive
      · -- behind the live front, by the order of the queue
        have hle : e.inserted ≤ x.inserted := (List.pairwise_cons.1 hc.sorted).1 x hx
        omega
    · rename_i hexp
      exact expireLoop_inv rest (map.erase e.key) (removed ++ [e.key]) ttl
        (hc.popExpired rfl (show e.inserted + ttl ≤ now by omega))

/-- `update` keeps the invariant at the new clock and leaves only live elements. -/
theorem update_inv (hc : Inv stamp clock c) (hnow : clock ≤ now) :
    (c.update now).ttl = c.ttl ∧ Inv stamp now (c.update now) ∧
      ∀ e ∈ (c.update now).list, now < e.inserted + c.ttl := by
  obtain ⟨map, list, ttl⟩ := c
  unfold LRUTimeCache.update LRUTimeCache.removeExpired
  split
  · rename_i hempty
    rw [List.isEmpty_iff] at hempty
    subst hempty
    simpa using hc.mono hnow
  · exact ⟨rfl, expireLoop_inv list map [] ttl (hc.mono hnow)⟩

/-- `contains` answers whether the key was inserted less than a time to live ago, with no
removal since. -/
theorem contains_iff (hc : Inv stamp clock c) (hnow : clock ≤ now) (key : Key) :
    (c.contains key now).1 = true ↔ ∃ t, stamp key = some t ∧ now < t + c.ttl := by
  obtain ⟨httl, hinv, hlive⟩ := update_inv hc hnow
  simp only [LRUTimeCache.contains, decide_eq_true_eq]
  constructor
  · intro hk
    obtain ⟨e, he, rfl⟩ := (hinv.mem_map key).1 hk
    exact ⟨e.inserted, hinv.stamp_eq e he, hlive e he⟩
  · rintro ⟨t, hk, ht⟩
    exact hinv.mem_of_live key t hk (httl ▸ ht)

/-- One call keeps the invariant, at the clock of its last reading. -/
theorem Call.apply_inv (call : Call Key) (hc : Inv stamp clock c)
    (hreads : (clock :: call.reads).Pairwise (· ≤ ·)) :
    ∃ c' clock', Call.apply c call = some c' ∧ c'.ttl = c.ttl ∧
      Inv (call.stamp stamp) clock' c' ∧ clock' ∈ clock :: call.reads := by
  cases call with
  | rawInsert key now =>
    obtain ⟨b, c', h, httl, hinv⟩ := rawInsert_inv hc (by simpa [Call.reads] using hreads) key
    exact ⟨c', now, by simp [Call.apply, h], httl, hinv, by simp [Call.reads]⟩
  | insert key nowUpdate nowInsert =>
    simp only [Call.reads] at hreads
    have hupdate : clock ≤ nowUpdate := List.rel_of_pairwise_cons hreads List.mem_cons_self
    have hinsert : nowUpdate ≤ nowInsert :=
      List.rel_of_pairwise_cons (List.pairwise_cons.1 hreads).2 List.mem_cons_self
    obtain ⟨httl₁, hinv₁, -⟩ := update_inv hc hupdate
    obtain ⟨b, c', h, httl, hinv⟩ := rawInsert_inv hinv₁ hinsert key
    exact ⟨c', nowInsert, by simp [Call.apply, LRUTimeCache.insert, h], httl.trans httl₁, hinv,
      by simp [Call.reads]⟩
  | rawRemove key =>
    obtain ⟨b, c', h, httl, hinv⟩ := rawRemove_inv hc key
    exact ⟨c', clock, by simp [Call.apply, h], httl, hinv, List.mem_cons_self⟩
  | removeExpired now =>
    obtain ⟨httl, hinv, -⟩ := update_inv hc (by simpa [Call.reads] using hreads)
    exact ⟨_, now, rfl, httl, hinv, by simp [Call.reads]⟩
  | update now =>
    obtain ⟨httl, hinv, -⟩ := update_inv hc (by simpa [Call.reads] using hreads)
    exact ⟨_, now, rfl, httl, hinv, by simp [Call.reads]⟩
  | contains key now =>
    obtain ⟨httl, hinv, -⟩ := update_inv hc (by simpa [Call.reads] using hreads)
    exact ⟨_, now, rfl, httl, hinv, by simp [Call.reads]⟩

/-- A run of calls under a clock that does not go back never panics and keeps the invariant. -/
theorem runCalls_inv : ∀ (calls : List (Call Key)) (c : LRUTimeCache Key)
    (stamp : Key → Option Nat) (clock : Nat), Inv stamp clock c →
    (clock :: calls.flatMap Call.reads).Pairwise (· ≤ ·) →
    ∃ c' clock', runCalls c calls = some c' ∧ c'.ttl = c.ttl ∧
      Inv (calls.foldl Call.stamp stamp) clock' c' ∧ clock' ∈ clock :: calls.flatMap Call.reads
  | [], c, stamp, clock, hc, _ => ⟨c, clock, rfl, rfl, hc, List.mem_cons_self⟩
  | call :: rest, c, stamp, clock, hc, hreads => by
    rw [List.flatMap_cons, ← List.cons_append, List.pairwise_append] at hreads
    obtain ⟨hfirst, hrest, hacross⟩ := hreads
    obtain ⟨c₁, clock₁, h₁, httl₁, hinv₁, hmem₁⟩ := Call.apply_inv call hc hfirst
    -- the clock after the call is at most every later reading
    have hnext : (clock₁ :: rest.flatMap Call.reads).Pairwise (· ≤ ·) :=
      List.pairwise_cons.2 ⟨fun r hr => hacross clock₁ hmem₁ r hr, hrest⟩
    obtain ⟨c₂, clock₂, h₂, httl₂, hinv₂, hmem₂⟩ := runCalls_inv rest c₁ _ clock₁ hinv₁ hnext
    refine ⟨c₂, clock₂, ?_, httl₂.trans httl₁, hinv₂, ?_⟩
    · simp only [runCalls, List.foldlM_cons, h₁, Option.bind_eq_bind, Option.bind_some]
      exact h₂
    · rcases List.mem_cons.1 hmem₂ with rfl | hmem₂
      · rw [List.flatMap_cons, ← List.cons_append]
        exact List.mem_append_left _ hmem₁
      · rw [List.flatMap_cons]
        exact List.mem_cons_of_mem _ (List.mem_append_right _ hmem₂)

end Calls

section Tracking

theorem lru_time_cache_tracks_insertions (ttl : Nat) (calls : List (Call Key)) (key : Key)
    (now : Nat) (hclock : (calls.flatMap Call.reads ++ [now]).Pairwise (· ≤ ·)) :
    ∃ c, runCalls (LRUTimeCache.new ttl) calls = some c ∧
      (c.list.map (·.key)).Nodup ∧ (∀ k, k ∈ c.map ↔ k ∈ c.list.map (·.key)) ∧
      c.list.Pairwise (fun e e' => e.inserted ≤ e'.inserted) ∧
      ((c.contains key now).1 = true ↔ ∃ t, insertedAt calls key = some t ∧ now < t + ttl) := by
  have hreads : (0 :: calls.flatMap Call.reads).Pairwise (· ≤ ·) :=
    List.pairwise_cons.2 ⟨fun _ _ => Nat.zero_le _, (List.pairwise_append.1 hclock).1⟩
  obtain ⟨c, clock, hrun, httl, hinv, hmem⟩ := runCalls_inv calls _ _ 0 (inv_new ttl) hreads
  -- `now` comes after every reading of the run
  have hnow : clock ≤ now := by
    rcases List.mem_cons.1 hmem with rfl | hmem
    · exact Nat.zero_le _
    · exact (List.pairwise_append.1 hclock).2.2 clock hmem now List.mem_cons_self
  refine ⟨c, hrun, hinv.nodup, fun k => ?_, hinv.sorted, ?_⟩
  · rw [hinv.mem_map]
    simp
  · rw [contains_iff hinv hnow, httl]
    rfl

/-- Key 1 inserted at 0, key 2 inserted at 5 and removed. -/
def sampleCalls : List (Call Nat) := [.insert 1 0 0, .rawInsert 2 5, .rawRemove 2]

theorem lru_time_cache_tracks_insertions_sample :
    (sampleCalls.flatMap Call.reads ++ [7]).Pairwise (· ≤ ·) ∧
      ∃ c, runCalls (LRUTimeCache.new 10) sampleCalls = some c ∧
        (c.list.map (·.key)).Nodup ∧ (∀ k, k ∈ c.map ↔ k ∈ c.list.map (·.key)) ∧
        c.list.Pairwise (fun e e' => e.inserted ≤ e'.inserted) ∧
        ((c.contains 1 7).1 = true ↔ ∃ t, insertedAt sampleCalls 1 = some t ∧ 7 < t + 10) :=
  ⟨by decide, lru_time_cache_tracks_insertions 10 sampleCalls 1 7 (by decide)⟩

end Tracking

end Vibehouse.LruCache
