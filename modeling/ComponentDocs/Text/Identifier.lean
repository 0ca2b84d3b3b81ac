import ComponentDocs.Text.Runs

/-!
Identifier characters of scripts: what may start a name and what may go on
with it.
-/

namespace ComponentDocs.Text

def nameStartRuns : List Nat :=
  [170, 1, 10, 1, 4, 1, 5, 23, 1, 31, 1, 458, 4, 12, 14, 5, 7, 1, 1, 1, 129, 5, 1, 2, 2, 4, 1, 1, 6,
   1, 1, 3, 1, 1, 1, 20, 1, 83, 1, 139, 8, 166, 1, 38, 2, 1, 6, 41, 71, 27, 4, 4, 45, 43, 35, 2, 1,
   99, 1, 1, 15, 2, 7, 2, 10, 3, 2, 1, 16, 1, 1, 30, 29, 89, 11, 1, 24, 33, 9, 2, 4, 1, 5, 22, 4, 1,
   9, 1, 3, 1, 23, 25, 7, 11, 5, 24, 1, 6, 17, 42, 58, 54, 3, 1, 18, 1, 7, 10, 15, 16, 4, 8, 2, 2,
   2, 22, 1, 7, 1, 1, 3, 4, 3, 1, 16, 1, 13, 2, 1, 3, 14, 2, 10, 1, 8, 6, 4, 2, 2, 22, 1, 7, 1, 2,
   1, 2, 1, 2, 31, 4, 1, 1, 19, 3, 16, 9, 1, 3, 1, 22, 1, 7, 1, 2, 1, 5, 3, 1, 18, 1, 15, 2, 23, 1,
   11, 8, 2, 2, 2, 22, 1, 7, 1, 2, 1, 5, 3, 1, 30, 2, 1, 3, 15, 1, 17, 1, 1, 6, 3, 3, 1, 4, 3, 2, 1,
   1, 1, 2, 3, 2, 3, 3, 3, 12, 22, 1, 52, 8, 1, 3, 1, 23, 1, 16, 3, 1, 26, 3, 2, 1, 2, 2, 30, 1, 4,
   8, 1, 3, 1, 23, 1, 10, 1, 5, 3, 1, 31, 2, 1, 2, 15, 2, 17, 9, 1, 3, 1, 41, 2, 1, 16, 1, 5, 3, 8,
   3, 24, 6, 5, 18, 3, 24, 1, 9, 1, 1, 2, 7, 58, 48, 1, 2, 12, 7, 58, 2, 1, 1, 1, 5, 1, 24, 1, 1, 1,
   10, 1, 2, 9, 1, 2, 5, 1, 1, 21, 4, 32, 1, 63, 8, 1, 36, 27, 5, 115, 43, 20, 1, 16, 6, 4, 4, 3, 1,
   3, 2, 7, 3, 4, 13, 12, 1, 17, 38, 1, 1, 5, 1, 2, 43, 1, 333, 1, 4, 2, 7, 1, 1, 1, 4, 2, 41, 1, 4,
   2, 33, 1, 4, 2, 7, 1, 1, 1, 4, 2, 15, 1, 57, 1, 4, 2, 67, 37, 16, 16, 86, 2, 6, 3, 620, 2, 17, 1,
   26, 5, 75, 3, 11, 7, 18, 13, 19, 14, 18, 14, 13, 1, 3, 15, 52, 35, 1, 4, 1, 67, 89, 7, 41, 1, 1,
   5, 70, 10, 31, 49, 30, 2, 5, 11, 44, 4, 26, 54, 23, 9, 53, 82, 1, 93, 47, 17, 8, 54, 30, 13, 2,
   10, 44, 26, 36, 41, 3, 10, 36, 2, 9, 7, 43, 2, 3, 41, 4, 1, 6, 1, 2, 3, 1, 5, 192, 64, 278, 2, 6,
   2, 38, 2, 6, 2, 8, 1, 1, 1, 1, 1, 1, 1, 31, 2, 53, 1, 7, 1, 1, 3, 3, 1, 7, 3, 4, 2, 6, 4, 13, 5,
   3, 1, 7, 116, 1, 13, 1, 16, 13, 101, 1, 4, 1, 2, 10, 1, 1, 2, 6, 6, 1, 1, 1, 1, 1, 1, 16, 2, 4,
   5, 5, 4, 1, 17, 41, 2679, 229, 6, 4, 3, 2, 12, 38, 1, 1, 5, 1, 2, 56, 7, 1, 16, 23, 9, 7, 1, 7,
   1, 7, 1, 7, 1, 7, 1, 7, 1, 7, 1, 7, 550, 3, 25, 9, 7, 5, 2, 5, 4, 86, 4, 5, 1, 90, 1, 4, 5, 43,
   1, 94, 17, 32, 48, 16, 512, 6592, 64, 22157, 67, 46, 2, 269, 3, 16, 10, 2, 20, 47, 16, 31, 2, 80,
   39, 9, 2, 103, 2, 64, 5, 2, 1, 1, 1, 5, 24, 16, 1, 3, 1, 4, 1, 23, 29, 52, 14, 50, 62, 6, 3, 1,
   1, 2, 11, 28, 10, 23, 25, 29, 7, 47, 28, 1, 16, 5, 1, 10, 10, 5, 1, 41, 23, 3, 1, 8, 20, 23, 3,
   1, 3, 50, 1, 1, 3, 2, 2, 5, 2, 1, 1, 1, 24, 3, 2, 11, 7, 3, 12, 6, 2, 6, 2, 6, 9, 7, 1, 7, 1, 43,
   1, 14, 6, 115, 29, 11172, 12, 23, 4, 49, 8452, 366, 2, 106, 38, 7, 12, 5, 5, 1, 1, 10, 1, 13, 1,
   5, 1, 1, 1, 2, 1, 2, 1, 108, 33, 363, 18, 64, 2, 54, 40, 12, 116, 5, 1, 135, 36, 26, 6, 26, 11,
   89, 3, 6, 2, 6, 2, 6, 2, 3, 35, 12, 1, 26, 1, 19, 1, 2, 1, 15, 2, 14, 34, 123, 69, 53, 267, 29,
   3, 49, 47, 32, 13, 30, 5, 38, 10, 30, 2, 36, 4, 8, 1, 5, 42, 158, 18, 36, 4, 36, 4, 40, 8, 52,
   12, 11, 1, 15, 1, 7, 1, 2, 1, 11, 1, 15, 1, 7, 1, 2, 67, 311, 9, 22, 10, 8, 24, 6, 1, 42, 1, 9,
   69, 6, 2, 1, 1, 44, 1, 2, 3, 1, 2, 23, 10, 23, 9, 31, 65, 19, 1, 2, 10, 22, 10, 26, 70, 56, 6, 2,
   64, 1, 15, 4, 1, 3, 1, 29, 42, 29, 3, 29, 35, 8, 1, 28, 27, 54, 10, 22, 10, 19, 13, 18, 110, 73,
   55, 51, 13, 51, 13, 36, 348, 42, 6, 2, 78, 29, 10, 1, 8, 22, 42, 18, 46, 21, 27, 23, 12, 53, 57,
   2, 2, 1, 13, 45, 32, 25, 26, 36, 29, 1, 2, 1, 8, 35, 3, 1, 12, 48, 14, 4, 21, 1, 1, 1, 35, 18, 1,
   25, 19, 2, 63, 7, 1, 1, 1, 4, 1, 15, 1, 10, 7, 47, 38, 8, 2, 2, 2, 22, 1, 7, 1, 2, 1, 5, 3, 1,
   18, 1, 12, 5, 158, 53, 18, 4, 20, 3, 30, 48, 20, 2, 1, 1, 184, 47, 41, 4, 36, 48, 20, 1, 59, 43,
   13, 1, 71, 27, 37, 7, 185, 44, 116, 64, 31, 8, 2, 1, 2, 8, 1, 2, 1, 24, 15, 1, 1, 1, 94, 8, 2,
   39, 16, 1, 1, 1, 28, 1, 10, 40, 7, 1, 21, 1, 11, 46, 19, 1, 18, 73, 263, 9, 1, 37, 17, 1, 49, 30,
   112, 7, 1, 2, 1, 38, 21, 1, 25, 6, 1, 2, 1, 32, 14, 1, 327, 19, 15, 1, 1, 13, 1, 34, 124, 1, 79,
   922, 102, 111, 17, 196, 2636, 97, 15, 1072, 17, 6, 4025, 583, 8633, 569, 7, 31, 17, 79, 17, 30,
   18, 48, 16, 4, 31, 21, 5, 19, 688, 64, 128, 75, 5, 1, 66, 13, 64, 2, 1, 1, 28, 6136, 8, 1238, 42,
   9, 8935, 4, 1, 7, 1, 2, 1, 291, 15, 1, 29, 3, 2, 1, 14, 4, 8, 396, 2308, 107, 5, 13, 3, 9, 7, 10,
   5990, 85, 1, 71, 1, 2, 2, 1, 2, 2, 2, 4, 1, 12, 1, 1, 1, 7, 1, 65, 1, 4, 2, 8, 1, 7, 1, 28, 1, 4,
   1, 5, 1, 1, 3, 7, 1, 340, 2, 25, 1, 25, 1, 31, 1, 25, 1, 31, 1, 25, 1, 31, 1, 25, 1, 31, 1, 25,
   1, 8, 1844, 31, 6, 6, 261, 62, 146, 45, 10, 7, 16, 1, 321, 30, 18, 44, 484, 28, 756, 7, 1, 4, 1,
   2, 1, 15, 1, 197, 59, 68, 7, 1, 1204, 4, 1, 27, 1, 2, 1, 1, 2, 1, 1, 10, 1, 4, 1, 1, 1, 1, 6, 1,
   4, 1, 1, 1, 1, 1, 1, 3, 1, 2, 1, 1, 2, 1, 1, 1, 1, 1, 1, 1, 1, 1, 1, 2, 1, 1, 2, 4, 1, 7, 1, 4,
   1, 4, 1, 1, 1, 10, 1, 17, 5, 3, 1, 5, 1, 17, 4420, 42720, 32, 4154, 6, 222, 2, 5762, 14, 7473,
   3103, 542, 1506, 4939, 5, 4192]

def nameMarkRuns : List Nat :=
  [183, 1, 584, 112, 23, 1, 251, 5, 265, 45, 1, 1, 1, 2, 1, 2, 1, 1, 72, 11, 48, 31, 6, 1, 101, 7,
   2, 10, 1, 16, 23, 58, 91, 11, 15, 52, 9, 1, 24, 24, 43, 3, 60, 74, 1, 129, 2, 10, 17, 3, 56, 9,
   2, 2, 2, 3, 9, 1, 10, 2, 2, 10, 14, 1, 2, 3, 56, 1, 1, 5, 4, 2, 2, 3, 3, 1, 20, 16, 11, 3, 56,
   10, 1, 3, 1, 3, 20, 2, 2, 10, 10, 6, 1, 3, 56, 9, 2, 2, 2, 3, 7, 3, 10, 2, 2, 10, 18, 1, 59, 5,
   3, 3, 1, 4, 9, 1, 14, 10, 16, 5, 55, 9, 1, 3, 1, 4, 7, 2, 11, 2, 2, 10, 17, 3, 56, 9, 1, 3, 1, 4,
   7, 2, 11, 2, 2, 10, 3, 1, 12, 4, 55, 10, 1, 3, 1, 4, 9, 1, 10, 2, 2, 10, 17, 3, 70, 1, 4, 6, 1,
   1, 1, 8, 6, 10, 2, 2, 61, 10, 12, 8, 1, 10, 87, 12, 11, 7, 1, 10, 62, 2, 6, 10, 11, 1, 1, 1, 1,
   1, 4, 2, 49, 20, 1, 18, 1, 36, 9, 1, 100, 31, 12, 72, 703, 3, 9, 9, 928, 4, 28, 3, 29, 2, 30, 2,
   64, 32, 9, 1, 2, 10, 33, 3, 1, 11, 143, 1, 118, 12, 4, 12, 10, 10, 128, 11, 60, 5, 57, 10, 1, 29,
   2, 11, 6, 10, 22, 14, 1, 16, 49, 69, 11, 10, 17, 9, 12, 116, 48, 20, 8, 10, 6, 10, 118, 3, 1, 38,
   198, 64, 575, 2, 19, 1, 123, 13, 4, 1, 3, 12, 3070, 3, 141, 1, 96, 32, 554, 6, 105, 2, 30085, 10,
   69, 1, 4, 10, 32, 84, 272, 38, 4, 1, 83, 70, 10, 10, 6, 18, 13, 47, 25, 13, 44, 65, 15, 10, 11,
   21, 47, 14, 12, 11, 2, 10, 33, 71, 41, 5, 5, 2, 236, 8, 1, 2, 2, 10, 20260, 1, 737, 16, 16, 16,
   3, 2, 24, 3, 192, 10, 37, 1, 701, 1, 226, 1, 149, 5, 293, 10, 1367, 3, 1, 2, 5, 4, 40, 3, 4, 1,
   165, 2, 573, 4, 8, 10, 369, 2, 80, 3, 70, 11, 49, 4, 122, 71, 31, 15, 10, 60, 7, 1, 45, 10, 6,
   53, 1, 10, 5, 2, 44, 1, 12, 65, 8, 4, 1, 12, 82, 12, 6, 4, 157, 12, 5, 10, 6, 4, 55, 10, 2, 2, 2,
   3, 9, 1, 10, 2, 2, 7, 3, 5, 192, 18, 9, 10, 4, 1, 81, 20, 12, 10, 213, 7, 2, 9, 27, 2, 82, 17,
   15, 10, 81, 13, 8, 10, 83, 15, 4, 10, 242, 15, 165, 10, 70, 6, 1, 2, 2, 9, 12, 10, 119, 7, 2, 7,
   3, 1, 28, 62, 8, 1, 9, 73, 405, 8, 1, 8, 16, 10, 56, 22, 1, 14, 122, 6, 3, 1, 1, 2, 1, 9, 8, 10,
   48, 5, 1, 2, 1, 5, 8, 10, 329, 4, 9, 4, 48, 7, 3, 5, 13, 10, 5350, 22, 13834, 10, 86, 10, 38, 5,
   59, 7, 25, 10, 1013, 57, 7, 4, 81, 1, 11, 2, 19627, 2, 4705, 46, 2, 23, 542, 5, 3, 6, 8, 8, 2, 7,
   30, 4, 148, 3, 1417, 50, 512, 55, 4, 50, 8, 1, 14, 1, 22, 5, 1, 15, 1360, 7, 1, 17, 2, 7, 1, 2,
   1, 5, 100, 1, 160, 7, 9, 10, 356, 1, 61, 14, 498, 14, 982, 7, 109, 7, 5, 10, 4758, 10, 787718,
   240]

def isNameStart (c : Char) : Bool :=
  if c.toNat < 128 then c.isAlpha || c == '_' || c == '$' else inRuns nameStartRuns c.toNat

def isNamePart (c : Char) : Bool :=
  if c.toNat < 128 then c.isAlphanum || c == '_' || c == '$'
  else c.toNat == 0x200c || c.toNat == 0x200d || inRuns nameStartRuns c.toNat ||
    inRuns nameMarkRuns c.toNat

def isNameCharacter (c : Char) : Bool :=
  isNameStart c || isNamePart c

end ComponentDocs.Text
