import Mathlib
import Galerkin.Kernel.Cache
import Galerkin.Proofs.Outcome

/-!
Caches are coherent. As long as digests tell the kernels apart, a cache hands out the function that was generated from
what it is asked for, the same one each time, and nothing is generated twice for a directory: whatever caches there are,
whichever directories they share, and in whatever order they are asked.
-/

namespace Galerkin

/-! ### Tables -/

theorem Table.lookup_put {κ β : Type} [DecidableEq κ] (t : Table κ β) (key k : κ) (value : β) :
    (t.put key value).lookup k = if k = key then some value else t.lookup k := by
  by_cases same : k = key
  · simp [put, same]
  have others : (t.filter (·.1 ≠ key)).lookup k = t.lookup k := by
    induction t with
    | nil => rfl
    | cons e t ih =>
        by_cases removed : e.1 = key
        · rw [List.filter_cons_of_neg (by simpa using removed), ih, List.lookup_cons, removed, beq_false_of_ne same]
        · rw [List.filter_cons_of_pos (by simpa using removed), List.lookup_cons, List.lookup_cons, ih]
  rw [put, List.lookup_cons, beq_false_of_ne same, if_neg same]
  exact others

/-! ### Names -/

/-- Are some pairs told apart by the digests of their texts, and by half of the digest of a pair? -/
structure CacheKey.Distinct (text : Kernel → String) (P : CacheKey → Prop) : Prop where
  pairs : ∀ p q, P p → P q → (p.digest text).toList.take 32 = (q.digest text).toList.take 32 →
    p.payload text = q.payload text
  texts : ∀ p q, P p → P q → Text.sha256 (text p.kernel) = Text.sha256 (text q.kernel) → text p.kernel = text q.kernel
  kernels : ∀ p q, P p → P q → text p.kernel = text q.kernel → p.kernel = q.kernel

namespace CacheKey

variable {text : Kernel → String} {P : CacheKey → Prop} {p q : CacheKey}

/-- The digest at the end of a payload has a fixed length, so that the signature in front is told, too. -/
theorem payload_inj : p.payload text = q.payload text ↔
    p.signature = q.signature ∧ Text.sha256 (text p.kernel) = Text.sha256 (text q.kernel) := by
  refine ⟨fun same => ?_, fun same => by rw [payload, payload, same.1, same.2]⟩
  have lists := congrArg String.toList same
  simp only [payload, String.toList_append] at lists
  have sizes : (Text.sha256 (text p.kernel)).toList.length = (Text.sha256 (text q.kernel)).toList.length := by
    rw [String.length_toList, String.length_toList, Text.length_sha256, Text.length_sha256]
  obtain ⟨front, behind⟩ := List.append_inj' lists sizes
  obtain ⟨signature, -⟩ := List.append_inj' front rfl
  exact ⟨String.toList_inj.mp signature, String.toList_inj.mp behind⟩

theorem Distinct.eq_of_half (apart : Distinct text P) (known : P p) (known' : P q)
    (half : (p.digest text).toList.take 32 = (q.digest text).toList.take 32) : p = q := by
  obtain ⟨signature, digest⟩ := payload_inj.mp (apart.pairs p q known known' half)
  have kernel := apart.kernels p q known known' (apart.texts p q known known' digest)
  cases p
  cases q
  cases signature
  cases kernel
  rfl

theorem Distinct.eq_of_digest (apart : Distinct text P) (known : P p) (known' : P q)
    (same : p.digest text = q.digest text) : p = q :=
  apart.eq_of_half known known' (by rw [same])

theorem Distinct.eq_of_moduleName (apart : Distinct text P) (known : P p) (known' : P q)
    (same : p.moduleName text = q.moduleName text) : p = q := by
  have lists : ("_weakfem_kernel_" ++ String.ofList ((p.digest text).toList.take 32)).toList =
      ("_weakfem_kernel_" ++ String.ofList ((q.digest text).toList.take 32)).toList := congrArg String.toList same
  simp only [String.toList_append, String.toList_ofList, List.append_cancel_left_eq] at lists
  exact apart.eq_of_half known known' lists

end CacheKey

namespace CacheStore

variable {text : Kernel → String} {P : CacheKey → Prop} {start s t : CacheStore} {name : String} {key : CacheKey}

/-! ### One call -/

/-- A store that has come from another one, whose directories held only modules that a cache had written. -/
structure Coherent (text : Kernel → String) (P : CacheKey → Prop) (start s : CacheStore) : Prop where
  modules : ∀ d file m, (s.directory d).lookup file = some m → ∃ p, P p ∧ file = p.moduleName text ∧ m = .generated p
  memories : ∀ n c, s.caches.lookup n = some c → ∀ digest f, c.memory.lookup digest = some f →
    P f.source ∧ digest = f.source.digest text
  kept : ∀ d file m, (start.directory d).lookup file = some m → (s.directory d).lookup file = some m
  fresh : ∀ d p, (d, p) ∈ s.generations → (start.directory d).lookup (p.moduleName text) = none
  stored : ∀ d p, (d, p) ∈ s.generations → (s.directory d).lookup (p.moduleName text) = some (.generated p)
  once : s.generations.Nodup

/-- Does a cache hand out this function for this pair from now on? -/
def Remembers (text : Kernel → String) (s : CacheStore) (name : String) (key : CacheKey) (f : KernelFunction) : Prop :=
  ∃ c, s.caches.lookup name = some c ∧ c.memory.lookup (key.digest text) = some f

theorem lookup_written (s : CacheStore) (d d' file file' : String) (key : CacheKey) :
    ((s.written d file key).directory d').lookup file' =
      if d' = d ∧ file' = file then some (.generated key) else (s.directory d').lookup file' := by
  rw [written, directory, Table.lookup_put]
  by_cases here : d' = d
  · simp [here, Table.lookup_put]
  · simp [here, directory]

theorem provide_of_stored {d file : String} {source : CacheKey} (found : (s.directory d).lookup file = some (.generated source)) :
    s.provide d file key = (source, s) := by
  simp only [provide, found]

theorem provide_of_missing {d file : String} (missing : (s.directory d).lookup file = none) :
    s.provide d file key = (key, s.written d file key) := by
  simp only [provide, missing]

theorem Coherent.written (coherent : Coherent text P start s) (known : P key) {d : String}
    (missing : (s.directory d).lookup (key.moduleName text) = none) :
    Coherent text P start (s.written d (key.moduleName text) key) := by
  have new : (d, key) ∉ s.generations := fun member => by
    rw [coherent.stored d key member] at missing
    cases missing
  -- What is stored already is not written again.
  have still {d' file : String} {m : StoredModule} (there : (s.directory d').lookup file = some m) :
      ((s.written d (key.moduleName text) key).directory d').lookup file = some m := by
    rw [lookup_written, if_neg, there]
    rintro ⟨rfl, rfl⟩
    cases missing.symm.trans there
  have generated {d' : String} {p : CacheKey} (member : (d', p) ∈ (s.written d (key.moduleName text) key).generations) :
      (d', p) ∈ s.generations ∨ d' = d ∧ p = key := by
    obtain old | last := List.mem_append.mp member
    · exact .inl old
    · exact .inr (Prod.mk.inj (List.mem_singleton.mp last))
  constructor
  · intro d' file m there
    rw [lookup_written] at there
    split at there
    · next here =>
        cases there
        exact ⟨key, known, here.2, rfl⟩
    · exact coherent.modules d' file m there
  · exact coherent.memories
  · exact fun d' file m there => still (coherent.kept d' file m there)
  · intro d' p member
    obtain old | ⟨rfl, rfl⟩ := generated member
    · exact coherent.fresh d' p old
    · cases before : (start.directory d').lookup (p.moduleName text) with
      | none => rfl
      | some m => cases missing.symm.trans (coherent.kept d' _ m before)
  · intro d' p member
    obtain old | ⟨rfl, rfl⟩ := generated member
    · exact still (coherent.stored d' p old)
    · rw [lookup_written, if_pos ⟨rfl, rfl⟩]
  · exact coherent.once.append (List.nodup_singleton _) fun _ old last => new (List.mem_singleton.mp last ▸ old)

/-- A module that is stored was generated from the pair; otherwise it is generated now, for the first time. -/
theorem Coherent.provide (coherent : Coherent text P start s) (apart : CacheKey.Distinct text P) (known : P key)
    (d : String) : ∃ s', s.provide d (key.moduleName text) key = (key, s') ∧ s'.caches = s.caches ∧
      Coherent text P start s' := by
  cases found : (s.directory d).lookup (key.moduleName text) with
  | some m =>
      obtain ⟨p, listed, named, rfl⟩ := coherent.modules d _ m found
      obtain rfl := apart.eq_of_moduleName known listed named
      exact ⟨s, provide_of_stored found, rfl, coherent⟩
  | none => exact ⟨_, provide_of_missing found, rfl, coherent.written known found⟩

theorem cache_eq_ok {c : KernelCache} : s.cache name = .ok c ↔ s.caches.lookup name = some c := by
  unfold cache
  split
  · next c' found => rw [found, Outcome.pure_eq_ok, Option.some_inj]
  · next none => simp [none]

/-- A function is handed out again, or it is loaded from a module and remembered. -/
theorem get_cases (text : Kernel → String) (key : CacheKey) {c : KernelCache} (here : s.caches.lookup name = some c) :
    (∃ f a, c.memory.lookup (key.digest text) = some f ∧ s.get name key text = .ok (a, s) ∧ a.function = f) ∨
      ∃ source s' a, c.memory.lookup (key.digest text) = none ∧
        s.provide c.directory (key.moduleName text) key = (source, s') ∧
        s.get name key text = .ok (a, s'.remember name c (key.digest text) a.function) ∧
        a.function = ⟨s'.functions, source⟩ := by
  have found := cache_eq_ok.mpr here
  cases memory : c.memory.lookup (key.digest text) with
  | some f =>
      refine .inl ⟨f, ⟨c.memory.length, (s.directory c.directory).length, f⟩, rfl, ?_, rfl⟩
      simp only [get, found, Outcome.ok_bind, memory]
      rfl
  | none =>
      cases provided : s.provide c.directory (key.moduleName text) key with
      | mk source s' =>
          let f : KernelFunction := ⟨s'.functions, source⟩
          refine .inr ⟨source, s', ⟨(c.memory.put (key.digest text) f).length, (s'.directory c.directory).length, f⟩, rfl,
            rfl, ?_, rfl⟩
          simp only [get, found, Outcome.ok_bind, memory, provided]
          rfl

theorem provide_caches (s : CacheStore) (d file : String) (key : CacheKey) : (s.provide d file key).2.caches = s.caches := by
  unfold provide
  split <;> rfl

/-- What an answered call has done to the caches. -/
theorem caches_of_get {a : CacheAnswer} (done : s.get name key text = .ok (a, t)) : ∃ c, s.caches.lookup name = some c ∧
    (t = s ∨ c.memory.lookup (key.digest text) = none ∧
      t.caches = s.caches.put name { c with memory := c.memory.put (key.digest text) a.function }) := by
  obtain ⟨c, found, -⟩ := Outcome.bind_eq_ok.mp done
  have here := cache_eq_ok.mp found
  refine ⟨c, here, ?_⟩
  obtain ⟨f, a', -, done', -⟩ | ⟨source, s', a', missing, provided, done', -⟩ := get_cases text key here
  · cases done.symm.trans done'
    exact .inl rfl
  · cases done.symm.trans done'
    have same := provide_caches s c.directory (key.moduleName text) key
    rw [provided] at same
    exact .inr ⟨missing, by rw [remember, same]⟩

theorem isSome_of_get {a : CacheAnswer} (done : s.get name key text = .ok (a, t)) {n : String}
    (opened : (s.caches.lookup n).isSome) : (t.caches.lookup n).isSome := by
  obtain ⟨c, -, rfl | ⟨-, caches⟩⟩ := caches_of_get done
  · exact opened
  · rw [caches, Table.lookup_put]
    split
    · rfl
    · exact opened

/-- Other pairs and other caches do not take a function away. -/
theorem Remembers.of_get {name' : String} {key' : CacheKey} {a : CacheAnswer} {f : KernelFunction}
    (remembers : s.Remembers text name key f) (done : s.get name' key' text = .ok (a, t)) : t.Remembers text name key f := by
  obtain ⟨c, here, found⟩ := remembers
  obtain ⟨c', here', rfl | ⟨missing, caches⟩⟩ := caches_of_get done
  · exact ⟨c, here, found⟩
  by_cases own : name = name'
  · subst own
    cases here.symm.trans here'
    refine ⟨_, by rw [caches, Table.lookup_put, if_pos rfl], ?_⟩
    rw [Table.lookup_put, if_neg, found]
    intro same
    rw [same, missing] at found
    cases found
  · exact ⟨c, by rw [caches, Table.lookup_put, if_neg own, here], found⟩

theorem Remembers.get {f : KernelFunction} (remembers : s.Remembers text name key f) :
    ∃ a, s.get name key text = .ok (a, s) ∧ a.function = f := by
  obtain ⟨c, here, there⟩ := remembers
  obtain ⟨f', a, found, done, rfl⟩ | ⟨_, _, _, missing, -, -, -⟩ := get_cases text key here
  · cases there.symm.trans found
    exact ⟨a, done, rfl⟩
  · cases there.symm.trans missing

theorem remembers_remember (s : CacheStore) (name : String) (c : KernelCache) (key : CacheKey) (f : KernelFunction) :
    (s.remember name c (key.digest text) f).Remembers text name key f :=
  ⟨{ c with memory := c.memory.put (key.digest text) f }, by rw [remember, Table.lookup_put, if_pos rfl],
    by rw [Table.lookup_put, if_pos rfl]⟩

/-- The answer for a pair in an open cache. -/
theorem Coherent.get (coherent : Coherent text P start s) (apart : CacheKey.Distinct text P) (known : P key) {c : KernelCache}
    (here : s.caches.lookup name = some c) : ∃ a s', s.get name key text = .ok (a, s') ∧ a.function.source = key ∧
      s'.Remembers text name key a.function ∧ Coherent text P start s' := by
  obtain ⟨f, a, found, done, rfl⟩ | ⟨source, s', a, missing, provided, done, made⟩ := get_cases text key here
  · obtain ⟨listed, digest⟩ := coherent.memories name c here _ _ found
    exact ⟨a, s, done, (apart.eq_of_digest known listed digest).symm, ⟨c, here, found⟩, coherent⟩
  · obtain ⟨s'', provided', same, coherent'⟩ := coherent.provide apart known c.directory
    cases provided.symm.trans provided'
    have source : a.function.source = key := by rw [made]
    refine ⟨a, _, done, source, remembers_remember _ _ _ _ _, coherent'.modules, ?_, coherent'.kept, coherent'.fresh,
      coherent'.stored, coherent'.once⟩
    intro n c' there digest f found
    rw [remember, Table.lookup_put] at there
    split at there
    · cases there
      rw [Table.lookup_put] at found
      split at found
      · next same =>
          cases found
          rw [source]
          exact ⟨known, same⟩
      · exact coherent.memories name c here digest f found
    · rw [same] at there
      exact coherent.memories n c' there digest f found

/-! ### Many calls -/

/-- What is done with caches: a cache is made for a directory, or one is asked for the function of a pair. -/
inductive Call where
  | opens (name directory : String)
  | gets (name : String) (key : CacheKey)

/-- What a call does, with the function that it returns. -/
def perform (text : Kernel → String) (s : CacheStore) : Call → Except Failure (Option KernelFunction × CacheStore)
  | .opens name directory => pure (none, s.openCache name directory)
  | .gets name key => do
    let (a, s) ← s.get name key text
    pure (some a.function, s)

def performAll (text : Kernel → String) (s : CacheStore) :
    List Call → Except Failure (List (Option KernelFunction) × CacheStore)
  | [] => pure ([], s)
  | call :: calls => do
    let (f, s) ← s.perform text call
    let (fs, s) ← s.performAll text calls
    pure (f :: fs, s)

/-- Is every cache made before it is asked? -/
def Ready : List String → List Call → Prop
  | _, [] => True
  | opened, .opens name _ :: calls => Ready (name :: opened) calls
  | opened, .gets name _ :: calls => name ∈ opened ∧ Ready opened calls

/-- Is this the answer to a call: for a pair, a function that was generated from it? -/
inductive Answered : Call → Option KernelFunction → Prop
  | opens (name directory : String) : Answered (.opens name directory) none
  | gets (name : String) (f : KernelFunction) : Answered (.gets name f.source) (some f)

theorem lookup_openCache (s : CacheStore) (name directory n : String) :
    (s.openCache name directory).caches.lookup n = if n = name then some ⟨directory, []⟩ else s.caches.lookup n :=
  Table.lookup_put ..

theorem Coherent.openCache (coherent : Coherent text P start s) (name directory : String) :
    Coherent text P start (s.openCache name directory) := by
  refine ⟨coherent.modules, fun n c here => ?_, coherent.kept, coherent.fresh, coherent.stored, coherent.once⟩
  rw [lookup_openCache] at here
  split at here
  · cases here
    exact fun _ _ found => absurd found (by simp)
  · exact coherent.memories n c here

/-- The first of several calls is answered, and the others may follow. -/
theorem Coherent.perform (coherent : Coherent text P start s) (apart : CacheKey.Distinct text P) {opened : List String}
    {call : Call} {calls : List Call} (available : ∀ n ∈ opened, (s.caches.lookup n).isSome)
    (ready : Ready opened (call :: calls)) (known : ∀ name key, call = .gets name key → P key) :
    ∃ f s' opened', s.perform text call = .ok (f, s') ∧ Answered call f ∧ Coherent text P start s' ∧
      (∀ n ∈ opened', (s'.caches.lookup n).isSome) ∧ Ready opened' calls := by
  cases call with
  | opens name directory =>
      refine ⟨none, _, name :: opened, rfl, .opens name directory, coherent.openCache name directory, fun n member => ?_, ready⟩
      rw [lookup_openCache]
      split
      · rfl
      · next other => exact available n ((List.mem_cons.mp member).resolve_left other)
  | gets name key =>
      obtain ⟨member, ready⟩ := ready
      obtain ⟨c, here⟩ := Option.isSome_iff_exists.mp (available name member)
      obtain ⟨a, s', done, rfl, -, coherent'⟩ := coherent.get apart (known name key rfl) here
      exact ⟨some a.function, s', opened, Outcome.bind_eq_ok.mpr ⟨_, done, rfl⟩, .gets name a.function, coherent',
        fun n listed => isSome_of_get done (available n listed), ready⟩

/-- Calls that are ready are all answered. -/
theorem Coherent.performAll (coherent : Coherent text P start s) (apart : CacheKey.Distinct text P) {opened : List String}
    {calls : List Call} (available : ∀ n ∈ opened, (s.caches.lookup n).isSome) (ready : Ready opened calls)
    (known : ∀ name key, .gets name key ∈ calls → P key) :
    ∃ fs s', s.performAll text calls = .ok (fs, s') ∧ List.Forall₂ Answered calls fs ∧ Coherent text P start s' := by
  induction calls generalizing s opened with
  | nil => exact ⟨[], s, rfl, .nil, coherent⟩
  | cons call calls ih =>
      obtain ⟨f, s', opened', done, answered, coherent', available', ready'⟩ :=
        coherent.perform apart available ready fun name key same => known name key (same ▸ List.mem_cons_self)
      obtain ⟨fs, s'', doneAll, answers, coherent''⟩ := ih coherent' available' ready' fun name key member =>
        known name key (List.mem_cons_of_mem call member)
      exact ⟨f :: fs, s'', Outcome.bind_eq_ok.mpr ⟨_, done, Outcome.bind_eq_ok.mpr ⟨_, doneAll, rfl⟩⟩,
        .cons answered answers, coherent''⟩

/-- A function that is remembered is handed out until its cache is made anew. -/
theorem Remembers.performAll {f : KernelFunction} (remembers : s.Remembers text name key f) {calls : List Call}
    {fs : List (Option KernelFunction)} (done : s.performAll text calls = .ok (fs, t)) {j : Nat}
    (again : calls[j]? = some (.gets name key)) (still : ∀ k d, k < j → calls[k]? ≠ some (.opens name d)) :
    fs[j]? = some (some f) := by
  induction calls generalizing s fs j with
  | nil => cases again
  | cons call calls ih =>
      obtain ⟨⟨g, s'⟩, first, done⟩ := Outcome.bind_eq_ok.mp done
      obtain ⟨⟨gs, s''⟩, rest, done⟩ := Outcome.bind_eq_ok.mp done
      cases done
      cases j with
      | zero =>
          cases Option.some.inj again
          obtain ⟨a, found, rfl⟩ := remembers.get
          cases (Outcome.bind_eq_ok.mpr ⟨_, found, rfl⟩ : s.perform text (.gets name key) = .ok (_, _)).symm.trans first
          rfl
      | succ j =>
          have kept : s'.Remembers text name key f := by
            cases call with
            | opens name' directory =>
                cases first
                obtain ⟨c, here, found⟩ := remembers
                refine ⟨c, ?_, found⟩
                rw [lookup_openCache, if_neg, here]
                rintro rfl
                exact still 0 directory (Nat.succ_pos j) rfl
            | gets name' key' =>
                obtain ⟨⟨a, s'⟩, got, same⟩ := Outcome.bind_eq_ok.mp first
                cases same
                exact remembers.of_get got
          exact ih kept rest again fun k d before => still (k + 1) d (Nat.succ_lt_succ before)

/-- A store without caches, whose directories hold only modules that a cache has written. -/
structure Held (text : Kernel → String) (P : CacheKey → Prop) (s : CacheStore) : Prop where
  caches : s.caches = []
  generations : s.generations = []
  modules : ∀ d file m, (s.directory d).lookup file = some m → ∃ p, P p ∧ file = p.moduleName text ∧ m = .generated p

theorem Held.coherent (held : Held text P start) : Coherent text P start start := by
  refine ⟨held.modules, ?_, fun _ _ _ there => there, ?_, ?_, ?_⟩
  · simp [held.caches]
  · simp [held.generations]
  · simp [held.generations]
  · simp [held.generations]

end CacheStore

end Galerkin
