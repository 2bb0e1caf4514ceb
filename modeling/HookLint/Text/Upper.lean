import HookLint.Text.Runs

namespace HookLint.Text

def upperRuns : List Run := [
  ⟨256, 310, 2⟩, ⟨313, 327, 2⟩, ⟨330, 376, 2⟩, ⟨377, 381, 2⟩, ⟨418, 422, 2⟩, ⟨461, 475, 2⟩, ⟨478, 494, 2⟩,
  ⟨506, 562, 2⟩, ⟨584, 590, 2⟩, ⟨984, 1006, 2⟩, ⟨1120, 1152, 2⟩, ⟨1162, 1216, 2⟩, ⟨1217, 1229, 2⟩,
  ⟨1232, 1326, 2⟩, ⟨7680, 7828, 2⟩, ⟨7838, 7934, 2⟩, ⟨8025, 8031, 2⟩, ⟨8484, 8490, 2⟩, ⟨11367, 11373, 2⟩,
  ⟨11394, 11490, 2⟩, ⟨42560, 42604, 2⟩, ⟨42624, 42650, 2⟩, ⟨42786, 42798, 2⟩, ⟨42802, 42862, 2⟩,
  ⟨42873, 42877, 2⟩, ⟨42878, 42886, 2⟩, ⟨42902, 42922, 2⟩, ⟨42934, 42948, 2⟩] ++ Run.spaced 0 [
  65, 25, 102, 22, 2, 6, 163, 1, 2, 0, 2, 1, 2, 2, 3, 3, 2, 1, 2, 2, 4, 1, 2, 1, 7, 0, 2, 0, 3, 0, 2, 1, 2, 2, 2, 0,
  2, 1, 4, 0, 8, 0, 3, 0, 3, 0, 39, 0, 3, 0, 2, 2, 66, 1, 2, 1, 3, 0, 2, 3, 298, 0, 2, 0, 4, 0, 9, 0, 7, 0, 2, 2, 2,
  0, 2, 1, 2, 16, 2, 8, 36, 0, 3, 2, 32, 0, 3, 0, 2, 1, 3, 50, 258, 37, 2890, 37, 2, 0, 6, 0, 723, 85, 2203, 42, 3,
  2, 585, 7, 9, 5, 11, 7, 9, 7, 9, 5, 27, 7, 73, 3, 13, 3, 13, 3, 13, 4, 12, 3, 263, 0, 5, 0, 4, 2, 3, 2, 3, 0, 4,
  4, 14, 2, 3, 3, 11, 1, 6, 0, 27, 15, 20, 0, 819, 25, 1841, 47, 49, 0, 2, 2, 10, 2, 2, 0, 3, 0, 9, 2, 107, 0, 2, 0,
  5, 0, 31385, 0, 2, 0, 3, 0, 2, 0, 25, 3, 2, 4, 17, 2, 2, 0, 7, 0, 6, 0, 2, 0, 29, 0, 22316, 25, 1222, 39, 137, 35,
  157, 10, 2, 14, 2, 6, 2, 1, 1771, 50, 3054, 31, 21889, 31, 26017, 25, 27, 25, 27, 25, 27, 0, 2, 1, 3, 0, 3, 1, 3,
  3, 2, 7, 27, 25, 27, 1, 2, 3, 3, 7, 2, 6, 28, 1, 2, 3, 2, 4, 2, 0, 4, 6, 28, 25, 27, 25, 27, 25, 27, 25, 27, 25,
  27, 25, 31, 24, 34, 24, 34, 24, 34, 24, 34, 24, 34, 0, 4406, 33, 2063, 25, 7, 25, 7, 25]

def isUpper (c : Char) : Bool := Run.anyHolds upperRuns c.toNat

end HookLint.Text
