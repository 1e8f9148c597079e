import ContainerDesktop.Rewrite.MapPath

/-!
# Rewriters

The functions that put `mapPath` on the bind sources of a JSON object of the
Docker API.  They change maps in place and find the parts they change by checked
type assertions, so a document without these parts is left as it is.  Two
assertions are not checked: those on an element of `Binds`, and on the `Type`
and the `Source` of a mount.  They fail with a panic.

`Json` is the `interface{}` that `json.Unmarshal` makes.  No function reads a
number, and `N` stands for `float64`.
-/

namespace ContainerDesktop.Rewrite

inductive Json (N : Type) where
  | null
  | bool (b : Bool)
  | num (n : N)
  | str (s : GoString)
  | arr (items : List (Json N))
  | obj (fields : List (GoString × Json N))

/-- `map[string]interface{}`, with one entry for each key. -/
abbrev JsonMap (N : Type) := List (GoString × Json N)

/-- An unchecked type assertion failed. -/
inductive Panic where
  | interfaceConversion
  deriving DecidableEq

section Maps

variable {N : Type}

/-- `m[key] = o` for a key that `m` has. -/
def JsonMap.update (m : JsonMap N) (key : GoString) (o : Json N) : JsonMap N :=
  m.map fun e => if e.1 = key then (e.1, o) else e

/-- Changes the object under a key in place, when there is one. -/
def JsonMap.onMap (m : JsonMap N) (key : GoString)
    (f : JsonMap N → Except Panic (JsonMap N)) : Except Panic (JsonMap N) :=
  match m.lookup key with
  | some (.obj o) => do return m.update key (.obj (← f o))
  | _ => return m

/-- Changes the array under a key in place, when there is one. -/
def JsonMap.onArray (m : JsonMap N) (key : GoString)
    (f : List (Json N) → Except Panic (List (Json N))) : Except Panic (JsonMap N) :=
  match m.lookup key with
  | some (.arr items) => do return m.update key (.arr (← f items))
  | _ => return m

end Maps

/-- `o.(string)`. -/
def asString {N : Type} : Option (Json N) → Except Panic GoString
  | some (.str s) => return s
  | _ => throw .interfaceConversion

section Rewriters

variable {N : Type} (windows : Bool) (path : GoString)

def rewriteMount (mount : JsonMap N) : Except Panic (JsonMap N) := do
  let t ← asString (mount.lookup "Type".toList)
  if t = "bind".toList then
    let s ← asString (mount.lookup "Source".toList)
    return mount.update "Source".toList (.str (mapPath windows s path))
  else
    return mount

def rewriteMounts (mounts : List (Json N)) : Except Panic (List (Json N)) :=
  mounts.mapM fun
    | .obj mount => do return .obj (← rewriteMount windows path mount)
    | o => return o

def rewriteBinds (binds : List (Json N)) : Except Panic (List (Json N)) :=
  binds.mapM fun bind => do
    let s ← asString (some bind)
    return .str (mapPath windows s path)

def rewriteHostConfig (hostConfig : JsonMap N) : Except Panic (JsonMap N) := do
  let hostConfig ← hostConfig.onArray "Binds".toList (rewriteBinds windows path)
  hostConfig.onArray "Mounts".toList (rewriteMounts windows path)

def rewriteContainerSummary (jsonMap : JsonMap N) : Except Panic (JsonMap N) := do
  let jsonMap ← jsonMap.onMap "HostConfig".toList (rewriteHostConfig windows path)
  jsonMap.onArray "Mounts".toList (rewriteMounts windows path)

def rewriteContainerConfig (jsonMap : JsonMap N) : Except Panic (JsonMap N) := do
  let jsonMap ← jsonMap.onMap "HostConfig".toList (rewriteHostConfig windows path)
  jsonMap.onArray "Mounts".toList (rewriteMounts windows path)

def rewriteContainerSpec (jsonMap : JsonMap N) : Except Panic (JsonMap N) :=
  jsonMap.onArray "Mounts".toList (rewriteMounts windows path)

def rewriteTaskSpec (jsonMap : JsonMap N) : Except Panic (JsonMap N) :=
  jsonMap.onMap "ContainerSpec".toList (rewriteContainerSpec windows path)

def rewriteServiceSpec (jsonMap : JsonMap N) : Except Panic (JsonMap N) :=
  jsonMap.onMap "TaskTemplate".toList (rewriteTaskSpec windows path)

def rewriteService (jsonMap : JsonMap N) : Except Panic (JsonMap N) :=
  jsonMap.onMap "Spec".toList (rewriteServiceSpec windows path)

def rewriteTask (jsonMap : JsonMap N) : Except Panic (JsonMap N) :=
  jsonMap.onMap "Spec".toList (rewriteTaskSpec windows path)

end Rewriters

/-- The functions a row of the table can name. -/
inductive Rewriter where
  | containerSummary
  | containerConfig
  | serviceSpec
  | service
  | task
  deriving DecidableEq

def Rewriter.apply {N : Type} (windows : Bool) (path : GoString) :
    Rewriter → JsonMap N → Except Panic (JsonMap N)
  | containerSummary => rewriteContainerSummary windows path
  | containerConfig => rewriteContainerConfig windows path
  | serviceSpec => rewriteServiceSpec windows path
  | service => rewriteService windows path
  | task => rewriteTask windows path

end ContainerDesktop.Rewrite
