import HookSqfs.Manager.DataModel

/-! The path functions of `utils.c`. A buffer holds a C string; `none` is the
result `false` of a function that fills one. -/
namespace HookSqfs.Paths
open Manager

def slash : Byte := 0x2f
def dot : Byte := 0x2e

/-- The tokens "." and "..". -/
def dotName : CString := [dot]
def dotdotName : CString := [dot, dot]

def PATH_MAX : Nat := 4096

/-- The tokens that `strsep(&p, "/")` returns until `p` is NULL. -/
def strsepTokens : CString → List CString
  | [] => [[]]
  | c :: s =>
    if c = slash then [] :: strsepTokens s
    else match strsepTokens s with
      | [] => [[c]]
      | token :: tokens => (c :: token) :: tokens

/-- One iteration of the token loop. `parts` is a stack, `parts[count - 1]` its head. -/
def tokenStep (absolute : Bool) (parts : List CString) (token : CString) : List CString :=
  if token = [] ∨ token = dotName then parts
  else if token = dotdotName then
    match parts with
    | top :: below =>
      if top ≠ dotdotName then below else if absolute then parts else token :: parts
    | [] => if absolute then parts else token :: parts
  else token :: parts

def appendStr (out : CString) (outSize : Nat) (s : CString) : Option CString :=
  if outSize = 0 then none
  else if s.length ≥ outSize - out.length then none
  else some (out ++ s)

/-- The rebuild loop from index `i` on. -/
def rebuild (absolute : Bool) (outSize : Nat) : Nat → List CString → CString → Option CString
  | _, [], out => some out
  | i, part :: parts, out =>
    if (i > 0 ∨ absolute) ∧ out.length > 1 then do
      let out ← appendStr out outSize [slash]
      let out ← appendStr out outSize part
      rebuild absolute outSize (i + 1) parts out
    else do
      let out ← appendStr out outSize part
      rebuild absolute outSize (i + 1) parts out

def pathNormalizeLexical (input : Option CString) (outSize : Nat) : Option CString :=
  match input with
  | none => none
  | some input =>
    if outSize = 0 then none
    else if input.length ≥ PATH_MAX then none
    else
      let absolute := input.head? = some slash
      let parts := ((strsepTokens input).foldl (tokenStep absolute) []).reverse
      do
        let out ← if absolute then appendStr [] outSize [slash] else some []
        let out ← rebuild absolute outSize 0 parts out
        if out = [] then appendStr out outSize (if absolute then [slash] else dotName)
        else some out

def pathEqualsNormalized (a b : Option CString) : Bool :=
  match a, b with
  | some a, some b =>
    match pathNormalizeLexical (some a) PATH_MAX, pathNormalizeLexical (some b) PATH_MAX with
    | some normA, some normB => normA = normB
    | _, _ => false
  | _, _ => false

/-- The loop that strips trailing slashes, from `rootLen` down. -/
def stripTrailing (normRoot : CString) : Nat → Nat
  | 0 => 0
  | n + 1 => if n + 1 > 1 ∧ normRoot[n]? = some slash then stripTrailing normRoot n else n + 1

/-- Store `relative` when an output buffer was given and it is large enough. -/
def writeRelative (relative : CString) (relativeOut : Option CString) (relativeOutSize : Nat) :
    Bool × Option CString :=
  if relativeOut.isSome ∧ relativeOutSize ≠ 0 then
    if relative.length ≥ relativeOutSize then (false, relativeOut) else (true, some relative)
  else (true, relativeOut)

/-- `relativeOut` is the buffer's content before the call, `none` for a NULL buffer;
the second result is its content afterwards. -/
def pathRelativeToRoot (root path relativeOut : Option CString) (relativeOutSize : Nat) :
    Bool × Option CString :=
  match root, path with
  | some root, some path =>
    match pathNormalizeLexical (some root) PATH_MAX, pathNormalizeLexical (some path) PATH_MAX with
    | some normRoot, some normPath =>
      let rootLen := stripTrailing normRoot normRoot.length
      let pathLen := normPath.length
      if rootLen = 1 ∧ normRoot.head? = some slash then
        if normPath.head? ≠ some slash then (false, relativeOut)
        else writeRelative (normPath.drop 1) relativeOut relativeOutSize
      else if pathLen < rootLen ∨ normPath.take rootLen ≠ normRoot.take rootLen then
        (false, relativeOut)
      else if pathLen = rootLen then writeRelative [] relativeOut relativeOutSize
      else if normPath[rootLen]? ≠ some slash then (false, relativeOut)
      else writeRelative (normPath.drop (rootLen + 1)) relativeOut relativeOutSize
    | _, _ => (false, relativeOut)
  | _, _ => (false, relativeOut)

end HookSqfs.Paths
