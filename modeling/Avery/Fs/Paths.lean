import Mathlib.Data.List.DropRight
import Mathlib.Data.UInt

/-!
# Names and paths

The string functions at the top of `fat32.cpp`.  A `string` is the list of its
bytes.  `char` is signed in the source, but it is only compared with characters
below 128, so bytes do as well.

A short name is the eleven bytes of a directory entry: eight of the base and
three of the extension, both padded with spaces.
-/

namespace Avery

/-- A `string`. -/
abbrev Str : Type := List UInt8

namespace Fat32

/-- The character `'/'`. -/
def slash : UInt8 := 47

/-- The character `'.'`. -/
def dot : UInt8 := 46

/-- The character `' '`. -/
def space : UInt8 := 32

def toLower (c : UInt8) : UInt8 := if 65 ≤ c ∧ c ≤ 90 then c + 32 else c

def toUpper (c : UInt8) : UInt8 := if 97 ≤ c ∧ c ≤ 122 then c - 32 else c

/-- The lengths agree, and the characters up to their case. -/
def namesEqual (a b : Str) : Bool := a.map toLower = b.map toLower

def isDotEntry (name : Str) : Bool := name = [dot] ∨ name = [dot, dot]

/-- What a C string holds of the bytes, which stops at the first NUL. -/
def cStr (s : Str) : Str := s.takeWhile (· ≠ 0)

/-! ## Short names -/

def padded (n : Nat) (s : Str) : Str := s ++ List.replicate (n - s.length) space

/-- The eleven bytes, or nothing when the name is not an 8.3 name.  A name with
at most one dot is cut at that dot. -/
def makeShortName (name : Str) : Option Str :=
  if name = [] ∨ slash ∈ name ∨ 1 < name.count dot then none
  else
    let base := name.takeWhile (· ≠ dot)
    let ext := (name.dropWhile (· ≠ dot)).drop 1
    if base.length = 0 ∨ 8 < base.length ∨ 3 < ext.length then none
    else some (padded 8 (base.map toUpper) ++ padded 3 (ext.map toUpper))

/-- The name of the entry that starts at byte 0 of `entry`. -/
def shortNameToString (entry : Nat → UInt8) : Str :=
  let base := ((List.range 8).map entry).rdropWhile (· = space)
  let ext := ((List.range 3).map fun i => entry (8 + i)).rdropWhile (· = space)
  cStr (base.map toLower ++ if ext = [] then [] else dot :: ext.map toLower)

/-- Appends the low bytes of UCS-2 characters, up to a NUL. -/
def appendLFNChars (out : Str) : List Nat → Str
  | [] => out
  | c :: cs =>
      if c = 0 then out
      else if c = 0xFFFF then appendLFNChars out cs
      else appendLFNChars (out ++ [UInt8.ofNat (c % 256)]) cs

def fillDotName (parent : Bool) : Str :=
  dot :: (if parent then dot else space) :: List.replicate 9 space

/-! ## Paths -/

def pathComponent (path : Str) (start stop : Nat) : Str := (path.take stop).drop start

/-- `end` without the slashes before it, but not below 1. -/
def trimSlashes (path : Str) : Nat → Nat
  | 0 => 0
  | 1 => 1
  | n + 2 => if path[n + 1]? = some slash then trimSlashes path (n + 1) else n + 2

/-- The position after the last slash before `start`. -/
def componentStart (path : Str) : Nat → Nat
  | 0 => 0
  | n + 1 => if path[n]? = some slash then n + 1 else componentStart path n

def basenameOf (path : Str) : Str :=
  if path = [slash] then [slash]
  else
    let stop := trimSlashes path path.length
    pathComponent path (componentStart path stop) stop

def parentOf (path : Str) : Str :=
  if path = [slash] then [slash]
  else
    let start := componentStart path (trimSlashes path path.length)
    if start ≤ 1 then [slash] else pathComponent path 0 (start - 1)

/-- The components of `cur ++ path`, when no slash is in `cur`. -/
def splitPathFrom (cur : Str) : Str → List Str
  | [] => if cur = [] then [] else [cur]
  | c :: path =>
      if c = slash then (if cur = [] then [] else [cur]) ++ splitPathFrom [] path
      else splitPathFrom (cur ++ [c]) path

def splitPath (path : Str) : List Str := splitPathFrom [] path

end Fat32

end Avery
