import Galerkin.Kernel.Basic
import Galerkin.Text.Digest

/-!
Caches of compiled kernels. Each cache remembers the functions it has handed out; caches over the
same directory share the modules stored there. Loading a module makes a new function, and a
remembered function is handed out again. Functions are remembered by a digest of the signature and
the digest of the kernel's text, and modules are stored by the first half of it.
-/

namespace Galerkin

/-- What identifies a kernel: the generator's signature and the kernel itself. -/
structure CacheKey where
  signature : String
  kernel : Kernel
  deriving DecidableEq, Repr

/-- A kernel whose decimals are doubles, as they are when it runs. -/
def Kernel.inDoubles (k : Kernel) : Kernel :=
  { k with
    temporaries := k.temporaries.map (·.mapNumbers Coeff.asDouble)
    residual := k.residual.map fun (i, e) => (i, e.mapNumbers Coeff.asDouble)
    tangent := k.tangent.map fun (i, e) => (i, e.mapNumbers Coeff.asDouble) }

def CacheKey.ofCompiled (k : CompiledKernel) : CacheKey := ⟨k.backend.signature, k.kernel.inDoubles⟩

namespace CacheKey

variable (text : Kernel → String)

def payload (key : CacheKey) : String := key.signature ++ "|" ++ Text.sha256 (text key.kernel)

def digest (key : CacheKey) : String := Text.sha256 (key.payload text)

def moduleName (key : CacheKey) : String := "_weakfem_kernel_" ++ String.ofList ((key.digest text).toList.take 32)

end CacheKey

/-- A function in memory, and what it was generated from. -/
structure KernelFunction where
  number : Nat
  source : CacheKey
  deriving DecidableEq, Repr

/-- The content of a stored module; a stale one cannot be loaded. -/
inductive StoredModule where
  | generated (source : CacheKey)
  | stale
  deriving DecidableEq, Repr

abbrev Table (κ β : Type) := List (κ × β)

/-- Sets the entry of a key. -/
def Table.put {κ β : Type} [DecidableEq κ] (t : Table κ β) (key : κ) (value : β) : Table κ β :=
  (key, value) :: t.filter (·.1 ≠ key)

structure KernelCache where
  directory : String
  memory : Table String KernelFunction

/-- All caches, the modules in all directories, the number of functions made so far, and what has been generated
for which directory. -/
structure CacheStore where
  caches : Table String KernelCache
  directories : Table String (Table String StoredModule)
  functions : Nat
  generations : List (String × CacheKey)

/-- What a look-up answers: the sizes of memory and directory, and the function. -/
structure CacheAnswer where
  remembered : Nat
  stored : Nat
  function : KernelFunction
  deriving DecidableEq, Repr

namespace CacheStore

def empty : CacheStore := ⟨[], [], 0, []⟩

/-- The arguments of a generated function, in order. -/
def argumentOrder : List String :=
  ["phi", "dphi", "wdet", "normals", "x_loc", "xt_loc", "ext_loc", "params", "w_t",
    "slot_source", "slot_comp", "slot_deriv", "n_comp"]

def directory (s : CacheStore) (name : String) : Table String StoredModule :=
  (s.directories.lookup name).getD []

/-- Opens a cache without memory over a directory. -/
def openCache (s : CacheStore) (name directory : String) : CacheStore :=
  { s with caches := s.caches.put name ⟨directory, []⟩ }

def cache (s : CacheStore) (name : String) : Except Failure KernelCache :=
  match s.caches.lookup name with
  | some c => pure c
  | none => throw .absent

/-- Stores a module that is generated from a pair. -/
def written (s : CacheStore) (directory file : String) (key : CacheKey) : CacheStore :=
  { s with
    directories := s.directories.put directory ((s.directory directory).put file (.generated key))
    generations := s.generations ++ [(directory, key)] }

/-- The source of a module, generated now unless one that can be loaded is stored. -/
def provide (s : CacheStore) (directory file : String) (key : CacheKey) : CacheKey × CacheStore :=
  match (s.directory directory).lookup file with
  | some (.generated source) => (source, s)
  | _ => (key, s.written directory file key)

/-- Puts a new function into the memory of a cache. -/
def remember (s : CacheStore) (name : String) (c : KernelCache) (digest : String) (f : KernelFunction) : CacheStore :=
  { s with
    caches := s.caches.put name { c with memory := c.memory.put digest f }
    functions := s.functions + 1 }

/-- The function of a kernel through a cache. -/
def get (s : CacheStore) (name : String) (key : CacheKey) (text : Kernel → String := reprStr) :
    Except Failure (CacheAnswer × CacheStore) := do
  let c ← s.cache name
  match c.memory.lookup (key.digest text) with
  | some f => pure (⟨c.memory.length, (s.directory c.directory).length, f⟩, s)
  | none =>
    let (source, s) := s.provide c.directory (key.moduleName text) key
    let f : KernelFunction := ⟨s.functions, source⟩
    pure (⟨(c.memory.put (key.digest text) f).length, (s.directory c.directory).length, f⟩,
      s.remember name c (key.digest text) f)

/-- Makes every module in the directory of a cache stale. -/
def spoil (s : CacheStore) (name : String) : Except Failure CacheStore := do
  let c ← s.cache name
  let modules := (s.directory c.directory).map fun m => (m.1, StoredModule.stale)
  pure { s with directories := s.directories.put c.directory modules }

end CacheStore

end Galerkin
