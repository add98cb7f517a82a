import BdmAssault.Smb.Driver.Requests

/-! # Paths of the SMB driver

`prepare_path` and `split_share_path` of `smb_fio.c`, and the names the driver keeps.
-/

namespace BdmAssault.Smb.Driver

def backslash : UInt8 := 0x5c

def dot : UInt8 := 0x2e

def isSlash (c : UInt8) : Bool := c = 0x2f ∨ c = backslash

/-! ## Full paths -/

/-- What is behind the current directory: the path without its leading slashes. The slashes
at its end stay, since the loop that looks for them starts at the terminator. -/
def pathRest (path : Name) : Name :=
  (path.dropWhile isSlash).map fun c => if c = 0x2f then backslash else c

/-- The path `path` stands for. -/
def resolve (curdir path : Name) : Name := curdir ++ [backslash] ++ pathRest path

/-- `prepare_path` with `SMB_PATH_MAX` bytes, of which three are kept free of the current
directory. A path that does not fit is cut and ends in a backslash. -/
def preparePath (curdir path : Name) : Name :=
  let full := resolve (curdir.take 1021) path
  if full.length < 1022 then full else full.take 1022 ++ [backslash]

theorem preparePath_eq_resolve {curdir path : Name} (h : (resolve curdir path).length < 1022) :
    preparePath curdir path = resolve curdir path := by
  have hdir : curdir.length < 1021 := by
    simp only [resolve, List.length_append, List.length_singleton] at h
    omega
  unfold preparePath
  rw [List.take_of_length_le (Nat.le_of_lt hdir)]
  exact if_pos h

/-- The string that `strncpy` leaves in `name` of a `FHANDLE`: the padding behind the field
ends it. -/
def handleName (path : Name) : Name := path.take 256

/-- The pattern that `smb_dopen` keeps. -/
def searchPattern (path : Name) : Name :=
  let name := path.take 255
  (if name.getLast? = some backslash then name else name ++ [backslash]) ++ [0x2a]

/-! ## The current directory -/

def endsInDots (path : Name) : Bool := path.reverse.take 2 = [dot, dot]

def endsInDot (path : Name) : Bool := path.getLast? = some dot

/-- The loop of `smb_chdir` over the current directory, from its end. -/
def parentDir (curdir : Name) : Name :=
  if backslash ∈ curdir then ((curdir.reverse.dropWhile (· ≠ backslash)).drop 1).reverse
  else curdir

/-! ## Shares -/

/-- The loop of `split_share_path` that makes one separator of several. -/
def rootLoop : Name → Name → Name
  | [], root => root
  | c :: rest, root =>
      if isSlash c then
        if rest.head?.any (fun next => !isSlash next) ∧ root ≠ [] then
          rootLoop rest (root ++ [backslash])
        else rootLoop rest root
      else rootLoop rest (root ++ [c])

/-- `split_share_path`: the share, and the root directory inside it. A name without a
terminator in its 256 bytes is refused. -/
def splitSharePath (configured : Name) : Option (Name × Name) :=
  let share := configured.takeWhile fun c => !isSlash c
  if share = [] ∨ 256 ≤ configured.length then none
  else some (share, rootLoop (configured.dropWhile fun c => !isSlash c) [])

end BdmAssault.Smb.Driver
