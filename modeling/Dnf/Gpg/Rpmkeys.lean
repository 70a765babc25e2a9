import Mathlib.Data.List.Infix

/-!
# What `rpmkeys --checksig` says

The output is read as `rpm/miscutils.py` reads it: the line `-:`, then one line for each signature or digest, then the empty piece after the last newline. The answers are the numbers of the source: 0 fine, 1 a key is missing, 2 the package is damaged or nothing can be told, 3 a key is not trusted, 4 not signed.
-/

namespace Dnf.Gpg

/-- The four flags of the loop over the lines. -/
structure Verdicts where
  trustedSig : Bool := false
  missingKey : Bool := false
  notTrusted : Bool := false
  notSigned : Bool := false
  deriving DecidableEq

/-- One line of the loop; `none` is its `return 2`. -/
def readLine (seen : Verdicts) (line : List Char) : Option Verdicts :=
  if ": BAD".toList <:+: line then none
  else if ": NOKEY".toList <:+ line then some { seen with missingKey := true }
  else if ": NOTTRUSTED".toList <:+ line then some { seen with notTrusted := true }
  else if ": NOTFOUND".toList <:+ line then some { seen with notSigned := true }
  else if ": OK".toList <:+ line ∧ "ignature,".toList <:+: line then some { seen with trustedSig := true }
  else if ": OK".toList <:+ line then some seen
  else none

/-- `_process_rpm_output`, on the output split at its newlines. -/
def processRpmOutput (data : List (List Char)) : Nat :=
  if data.length < 3 ∨ data.head? ≠ some "-:".toList ∨ data.getLast? ≠ some [] then 2
  else match data.tail.dropLast.foldlM readLine {} with
    | none => 2
    | some seen =>
        if seen.missingKey then 1
        else if !seen.trustedSig && seen.notTrusted then 3
        else if seen.notSigned then 4
        else 0

/-- The end of `_verifyPackageUsingRpmkeys`: the child's return code and its standard output. -/
def rpmkeysResult (returncode : Int) (stdout : List Char) : Nat :=
  if returncode ≥ 2 ∨ returncode < 0 then 2
  else
    let ret := processRpmOutput (stdout.splitOn '\n')
    if ret ≠ 0 then ret
    else if returncode ≠ 0 then 2
    else 0

end Dnf.Gpg
