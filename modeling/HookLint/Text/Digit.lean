import HookLint.Text.Runs

namespace HookLint.Text

def digitRuns : List Run := Run.spaced 0 [
  48, 9, 121, 1, 6, 0, 1447, 9, 135, 9, 199, 9, 413, 9, 119, 9, 119, 9, 119, 9, 119, 9, 119, 9, 119, 9, 119, 9, 119,
  9, 119, 9, 97, 9, 119, 9, 71, 9, 279, 9, 71, 9, 720, 8, 1135, 9, 39, 9, 301, 9, 129, 10, 166, 9, 7, 9, 183, 9, 87,
  9, 135, 9, 7, 9, 1047, 0, 4, 5, 7, 9, 983, 8, 12, 8, 12, 8, 90, 0, 11, 8, 2, 0, 631, 8, 2, 8, 2, 8, 32398, 9, 679,
  9, 39, 9, 199, 9, 23, 9, 87, 9, 407, 9, 21271, 9, 1415, 9, 1431, 3, 749, 9, 295, 8, 490, 8, 12, 9, 129, 9, 61, 9,
  145, 9, 279, 9, 343, 9, 119, 9, 375, 9, 103, 9, 103, 9, 423, 9, 103, 9, 759, 9, 247, 9, 71, 9, 19639, 9, 87, 9,
  135, 9, 27765, 49, 2369, 9, 423, 9, 1623, 9, 1959, 10, 2790, 9]

def isDigit (c : Char) : Bool := Run.anyHolds digitRuns c.toNat

/-- Code points whose numeric type is decimal, in ascending runs of whole sets of ten from zero up. -/
def decimalRuns : List Run := Run.spaced 0 [
  48, 9, 1575, 9, 135, 9, 199, 9, 413, 9, 119, 9, 119, 9, 119, 9, 119, 9, 119, 9, 119, 9, 119, 9, 119, 9, 119, 9,
  97, 9, 119, 9, 71, 9, 279, 9, 71, 9, 1863, 9, 39, 9, 301, 9, 129, 9, 167, 9, 7, 9, 183, 9, 87, 9, 135, 9, 7, 9,
  35271, 9, 679, 9, 39, 9, 199, 9, 23, 9, 87, 9, 407, 9, 21271, 9, 1415, 9, 2183, 9, 813, 9, 129, 9, 61, 9, 145, 9,
  279, 9, 343, 9, 119, 9, 375, 9, 103, 9, 103, 9, 423, 9, 103, 9, 759, 9, 247, 9, 71, 9, 19639, 9, 87, 9, 135, 9,
  27765, 49, 2369, 9, 423, 9, 1623, 9, 4759, 9]

def decimalValue? (c : Char) : Option Nat :=
  (decimalRuns.find? (·.holds c.toNat)).map fun run => (c.toNat - run.first) % 10

end HookLint.Text
