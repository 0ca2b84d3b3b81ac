import ComponentDocs.Text.Runs
import ComponentDocs.Text.Basic

/-!
The full lowercase mapping of a text.  Two letters are special: the dotted
capital I becomes two characters, and a capital sigma at the end of a word
becomes the final sigma.
-/

namespace ComponentDocs.Text

/-- Runs `(first, count, step, offset)`: from `first` on, `count` code points that are `step` apart
map to themselves plus `offset`. -/
def lowercaseRuns : List (Nat × Nat × Nat × Int) :=
  [(0xc0, 23, 1, 32), (0xd8, 7, 1, 32), (0x100, 24, 2, 1), (0x132, 3, 2, 1), (0x139, 8, 2, 1),
   (0x14a, 23, 2, 1), (0x178, 1, 1, -121), (0x179, 3, 2, 1), (0x181, 1, 1, 210), (0x182, 2, 2, 1),
   (0x186, 1, 1, 206), (0x187, 1, 1, 1), (0x189, 2, 1, 205), (0x18b, 1, 1, 1), (0x18e, 1, 1, 79),
   (0x18f, 1, 1, 202), (0x190, 1, 1, 203), (0x191, 1, 1, 1), (0x193, 1, 1, 205), (0x194, 1, 1, 207),
   (0x196, 1, 1, 211), (0x197, 1, 1, 209), (0x198, 1, 1, 1), (0x19c, 1, 1, 211), (0x19d, 1, 1, 213),
   (0x19f, 1, 1, 214), (0x1a0, 3, 2, 1), (0x1a6, 1, 1, 218), (0x1a7, 1, 1, 1), (0x1a9, 1, 1, 218),
   (0x1ac, 1, 1, 1), (0x1ae, 1, 1, 218), (0x1af, 1, 1, 1), (0x1b1, 2, 1, 217), (0x1b3, 2, 2, 1),
   (0x1b7, 1, 1, 219), (0x1b8, 1, 1, 1), (0x1bc, 1, 1, 1), (0x1c4, 1, 1, 2), (0x1c5, 1, 1, 1),
   (0x1c7, 1, 1, 2), (0x1c8, 1, 1, 1), (0x1ca, 1, 1, 2), (0x1cb, 9, 2, 1), (0x1de, 9, 2, 1),
   (0x1f1, 1, 1, 2), (0x1f2, 2, 2, 1), (0x1f6, 1, 1, -97), (0x1f7, 1, 1, -56), (0x1f8, 20, 2, 1),
   (0x220, 1, 1, -130), (0x222, 9, 2, 1), (0x23a, 1, 1, 10795), (0x23b, 1, 1, 1),
   (0x23d, 1, 1, -163), (0x23e, 1, 1, 10792), (0x241, 1, 1, 1), (0x243, 1, 1, -195),
   (0x244, 1, 1, 69), (0x245, 1, 1, 71), (0x246, 5, 2, 1), (0x370, 2, 2, 1), (0x376, 1, 1, 1),
   (0x37f, 1, 1, 116), (0x386, 1, 1, 38), (0x388, 3, 1, 37), (0x38c, 1, 1, 64), (0x38e, 2, 1, 63),
   (0x391, 17, 1, 32), (0x3a3, 9, 1, 32), (0x3cf, 1, 1, 8), (0x3d8, 12, 2, 1), (0x3f4, 1, 1, -60),
   (0x3f7, 1, 1, 1), (0x3f9, 1, 1, -7), (0x3fa, 1, 1, 1), (0x3fd, 3, 1, -130), (0x400, 16, 1, 80),
   (0x410, 32, 1, 32), (0x460, 17, 2, 1), (0x48a, 27, 2, 1), (0x4c0, 1, 1, 15), (0x4c1, 7, 2, 1),
   (0x4d0, 48, 2, 1), (0x531, 38, 1, 48), (0x10a0, 38, 1, 7264), (0x10c7, 1, 1, 7264),
   (0x10cd, 1, 1, 7264), (0x13a0, 80, 1, 38864), (0x13f0, 6, 1, 8), (0x1c89, 1, 1, 1),
   (0x1c90, 43, 1, -3008), (0x1cbd, 3, 1, -3008), (0x1e00, 75, 2, 1), (0x1e9e, 1, 1, -7615),
   (0x1ea0, 48, 2, 1), (0x1f08, 8, 1, -8), (0x1f18, 6, 1, -8), (0x1f28, 8, 1, -8),
   (0x1f38, 8, 1, -8), (0x1f48, 6, 1, -8), (0x1f59, 4, 2, -8), (0x1f68, 8, 1, -8),
   (0x1f88, 8, 1, -8), (0x1f98, 8, 1, -8), (0x1fa8, 8, 1, -8), (0x1fb8, 2, 1, -8),
   (0x1fba, 2, 1, -74), (0x1fbc, 1, 1, -9), (0x1fc8, 4, 1, -86), (0x1fcc, 1, 1, -9),
   (0x1fd8, 2, 1, -8), (0x1fda, 2, 1, -100), (0x1fe8, 2, 1, -8), (0x1fea, 2, 1, -112),
   (0x1fec, 1, 1, -7), (0x1ff8, 2, 1, -128), (0x1ffa, 2, 1, -126), (0x1ffc, 1, 1, -9),
   (0x2126, 1, 1, -7517), (0x212a, 1, 1, -8383), (0x212b, 1, 1, -8262), (0x2132, 1, 1, 28),
   (0x2160, 16, 1, 16), (0x2183, 1, 1, 1), (0x24b6, 26, 1, 26), (0x2c00, 48, 1, 48),
   (0x2c60, 1, 1, 1), (0x2c62, 1, 1, -10743), (0x2c63, 1, 1, -3814), (0x2c64, 1, 1, -10727),
   (0x2c67, 3, 2, 1), (0x2c6d, 1, 1, -10780), (0x2c6e, 1, 1, -10749), (0x2c6f, 1, 1, -10783),
   (0x2c70, 1, 1, -10782), (0x2c72, 1, 1, 1), (0x2c75, 1, 1, 1), (0x2c7e, 2, 1, -10815),
   (0x2c80, 50, 2, 1), (0x2ceb, 2, 2, 1), (0x2cf2, 1, 1, 1), (0xa640, 23, 2, 1), (0xa680, 14, 2, 1),
   (0xa722, 7, 2, 1), (0xa732, 31, 2, 1), (0xa779, 2, 2, 1), (0xa77d, 1, 1, -35332),
   (0xa77e, 5, 2, 1), (0xa78b, 1, 1, 1), (0xa78d, 1, 1, -42280), (0xa790, 2, 2, 1),
   (0xa796, 10, 2, 1), (0xa7aa, 1, 1, -42308), (0xa7ab, 1, 1, -42319), (0xa7ac, 1, 1, -42315),
   (0xa7ad, 1, 1, -42305), (0xa7ae, 1, 1, -42308), (0xa7b0, 1, 1, -42258), (0xa7b1, 1, 1, -42282),
   (0xa7b2, 1, 1, -42261), (0xa7b3, 1, 1, 928), (0xa7b4, 8, 2, 1), (0xa7c4, 1, 1, -48),
   (0xa7c5, 1, 1, -42307), (0xa7c6, 1, 1, -35384), (0xa7c7, 2, 2, 1), (0xa7cb, 1, 1, -42343),
   (0xa7cc, 1, 1, 1), (0xa7d0, 1, 1, 1), (0xa7d6, 3, 2, 1), (0xa7dc, 1, 1, -42561),
   (0xa7f5, 1, 1, 1), (0xff21, 26, 1, 32), (0x10400, 40, 1, 40), (0x104b0, 36, 1, 40),
   (0x10570, 11, 1, 39), (0x1057c, 15, 1, 39), (0x1058c, 7, 1, 39), (0x10594, 2, 1, 39),
   (0x10c80, 51, 1, 64), (0x10d50, 22, 1, 32), (0x118a0, 32, 1, 32), (0x16e40, 32, 1, 32),
   (0x1e900, 34, 1, 34)]

def casedRuns : List Nat :=
  [170, 1, 10, 1, 4, 1, 5, 23, 1, 31, 1, 195, 1, 4, 4, 208, 1, 36, 7, 2, 30, 5, 96, 1, 42, 4, 2, 2,
   2, 4, 1, 1, 6, 1, 1, 3, 1, 1, 1, 20, 1, 83, 1, 139, 8, 166, 1, 38, 9, 41, 2839, 38, 1, 1, 5, 1,
   2, 43, 1, 4, 672, 86, 2, 6, 2178, 9, 7, 43, 2, 3, 64, 192, 64, 278, 2, 6, 2, 38, 2, 6, 2, 8, 1,
   1, 1, 1, 1, 1, 1, 31, 2, 53, 1, 7, 1, 1, 3, 3, 1, 7, 3, 4, 2, 6, 4, 13, 5, 3, 1, 7, 116, 1, 13,
   1, 16, 13, 101, 1, 4, 1, 2, 10, 1, 1, 3, 5, 6, 1, 1, 1, 1, 1, 1, 4, 1, 6, 4, 1, 2, 4, 5, 5, 4, 1,
   17, 32, 3, 2, 817, 52, 1814, 229, 6, 4, 3, 2, 12, 38, 1, 1, 5, 1, 30994, 46, 18, 30, 132, 102, 3,
   4, 1, 59, 5, 2, 1, 1, 1, 5, 24, 5, 1, 3, 821, 43, 1, 14, 6, 80, 20288, 7, 12, 5, 1033, 26, 6, 26,
   1189, 80, 96, 36, 4, 36, 116, 11, 1, 15, 1, 7, 1, 2, 1, 11, 1, 15, 1, 7, 1, 2, 451, 1, 2, 3, 1,
   42, 1, 9, 1221, 51, 13, 51, 2989, 64, 21856, 64, 25984, 85, 1, 71, 1, 2, 2, 1, 2, 2, 2, 4, 1, 12,
   1, 1, 1, 7, 1, 65, 1, 4, 2, 8, 1, 7, 1, 28, 1, 4, 1, 5, 1, 1, 3, 7, 1, 340, 2, 25, 1, 25, 1, 31,
   1, 25, 1, 31, 1, 25, 1, 31, 1, 25, 1, 31, 1, 25, 1, 8, 1844, 10, 1, 20, 6, 6, 261, 62, 2194, 68,
   2028, 26, 6, 26, 6, 26]

def caseIgnorableRuns : List Nat :=
  [168, 1, 4, 1, 1, 1, 4, 1, 2, 2, 503, 192, 4, 2, 4, 1, 9, 2, 1, 1, 251, 7, 207, 1, 5, 1, 49, 45,
   1, 1, 1, 2, 1, 2, 1, 1, 44, 1, 11, 6, 10, 11, 1, 1, 35, 1, 10, 21, 16, 1, 101, 8, 1, 10, 1, 4,
   33, 1, 1, 1, 30, 27, 91, 11, 58, 11, 4, 1, 2, 1, 24, 24, 43, 3, 44, 1, 7, 2, 6, 8, 41, 58, 55, 1,
   1, 1, 4, 8, 4, 1, 3, 7, 10, 2, 13, 1, 15, 1, 58, 1, 4, 4, 8, 1, 20, 2, 26, 1, 2, 2, 57, 1, 4, 2,
   4, 2, 2, 3, 3, 1, 30, 2, 3, 1, 11, 2, 57, 1, 4, 5, 1, 2, 4, 1, 20, 2, 22, 6, 1, 1, 58, 1, 2, 1,
   1, 4, 8, 1, 7, 2, 11, 2, 30, 1, 61, 1, 12, 1, 50, 1, 3, 1, 55, 1, 1, 3, 5, 3, 1, 4, 7, 2, 11, 2,
   29, 1, 58, 1, 2, 1, 6, 1, 5, 2, 20, 2, 28, 2, 57, 2, 4, 4, 8, 1, 20, 2, 29, 1, 72, 1, 7, 3, 1, 1,
   90, 1, 2, 7, 11, 9, 98, 1, 2, 9, 9, 1, 1, 7, 73, 2, 27, 1, 1, 1, 1, 1, 55, 14, 1, 5, 1, 2, 5, 11,
   1, 36, 9, 1, 102, 4, 1, 6, 1, 2, 2, 2, 25, 2, 4, 3, 16, 4, 13, 1, 2, 2, 6, 1, 15, 1, 94, 1, 608,
   3, 946, 3, 29, 2, 30, 2, 30, 2, 64, 2, 1, 7, 8, 1, 2, 11, 3, 1, 5, 1, 45, 5, 51, 1, 65, 2, 34, 1,
   118, 3, 4, 2, 9, 1, 6, 3, 219, 2, 2, 1, 58, 1, 1, 7, 1, 1, 1, 1, 2, 8, 6, 10, 2, 1, 39, 1, 8, 31,
   49, 4, 48, 1, 1, 5, 1, 1, 5, 1, 40, 9, 12, 2, 32, 4, 2, 2, 1, 3, 56, 1, 1, 2, 3, 1, 1, 3, 58, 8,
   2, 2, 64, 6, 82, 3, 1, 13, 1, 7, 4, 1, 6, 1, 3, 2, 50, 63, 13, 1, 34, 101, 445, 1, 1, 3, 11, 3,
   13, 3, 13, 3, 13, 2, 12, 5, 8, 2, 10, 1, 2, 1, 2, 5, 49, 5, 1, 10, 1, 1, 13, 1, 16, 13, 51, 33,
   2955, 2, 113, 3, 125, 1, 15, 1, 96, 32, 47, 1, 469, 1, 36, 4, 3, 5, 5, 1, 93, 6, 93, 3, 28438, 1,
   1250, 6, 270, 1, 98, 4, 1, 10, 1, 1, 28, 4, 80, 2, 14, 34, 78, 1, 23, 3, 103, 3, 3, 2, 8, 1, 3,
   1, 4, 1, 25, 2, 5, 1, 151, 2, 26, 18, 13, 1, 38, 8, 25, 11, 46, 3, 48, 1, 2, 4, 2, 2, 17, 1, 21,
   2, 66, 6, 2, 2, 2, 2, 12, 1, 8, 1, 35, 1, 11, 1, 51, 1, 1, 3, 2, 2, 5, 2, 1, 1, 27, 1, 14, 2, 5,
   2, 1, 1, 100, 5, 9, 3, 121, 1, 2, 1, 4, 1, 20272, 1, 147, 17, 573, 16, 3, 1, 12, 16, 34, 1, 2, 1,
   169, 1, 7, 1, 6, 1, 11, 1, 35, 1, 1, 1, 47, 1, 45, 2, 67, 1, 21, 3, 513, 1, 226, 1, 149, 5, 1029,
   6, 1, 42, 1, 9, 582, 3, 1, 2, 5, 4, 40, 3, 4, 1, 165, 2, 573, 4, 387, 2, 80, 3, 70, 11, 49, 4,
   123, 1, 54, 15, 41, 1, 2, 2, 10, 3, 49, 4, 2, 2, 2, 1, 4, 1, 10, 1, 50, 3, 36, 5, 1, 8, 62, 1,
   12, 2, 52, 9, 10, 4, 2, 1, 95, 3, 2, 1, 1, 2, 6, 1, 2, 1, 157, 1, 3, 8, 21, 2, 57, 2, 3, 1, 37,
   7, 3, 5, 195, 8, 2, 3, 1, 1, 23, 1, 84, 6, 1, 1, 4, 2, 1, 2, 238, 4, 6, 2, 1, 2, 27, 2, 85, 8, 2,
   1, 1, 2, 106, 1, 1, 1, 2, 6, 1, 1, 101, 3, 2, 4, 1, 5, 259, 9, 1, 2, 256, 2, 1, 1, 4, 1, 144, 4,
   2, 2, 4, 1, 32, 10, 40, 6, 2, 4, 8, 1, 9, 6, 2, 3, 46, 13, 1, 2, 406, 7, 1, 6, 1, 1, 82, 22, 2,
   7, 1, 2, 1, 2, 122, 6, 3, 1, 1, 2, 1, 7, 1, 1, 72, 2, 3, 1, 1, 1, 347, 2, 11, 2, 52, 5, 5, 1, 1,
   1, 5357, 17, 6, 15, 13978, 5, 59, 7, 9, 4, 1035, 1, 63, 17, 64, 2, 1, 2, 16395, 4, 1, 7, 1, 2,
   3230, 2, 1, 4, 4700, 46, 2, 23, 544, 3, 9, 16, 2, 7, 30, 4, 148, 3, 1979, 55, 4, 50, 8, 1, 14, 1,
   22, 5, 1, 15, 1360, 7, 1, 17, 2, 7, 1, 2, 1, 5, 5, 62, 33, 1, 160, 14, 368, 1, 61, 4, 507, 5,
   992, 7, 109, 8, 2735, 5, 789505, 1, 30, 96, 128, 240]

def isCased (c : Char) : Bool :=
  if c.toNat < 128 then c.isAlpha else inRuns casedRuns c.toNat

def isCaseIgnorable (c : Char) : Bool :=
  if c.toNat < 128 then c == '\'' || c == '.' || c == ':' || c == '^' || c == '\x60'
  else inRuns caseIgnorableRuns c.toNat

def lowercaseOffset? (code : Nat) : Option Int :=
  (lowercaseRuns.find? fun (first, count, step, _) =>
    first ≤ code && code < first + count * step && (code - first) % step == 0).map (·.2.2.2)

def lowercaseChar (c : Char) : Text :=
  if c.toNat < 128 then [c.toLower]
  else if c.toNat == 0x130 then ['i', Char.ofNat 0x307]
  else
    match lowercaseOffset? c.toNat with
    | some offset => [Char.ofNat (c.toNat + offset).toNat]
    | none => [c]

def meetsCased (text : Text) : Bool :=
  match text.dropWhile isCaseIgnorable with
  | [] => false
  | c :: _ => isCased c

/-- Lowercase a text; `before` holds the characters already passed, nearest
first. -/
def lowercaseAfter (before : Text) : Text → Text
  | [] => []
  | c :: rest =>
      let mapped :=
        if c.toNat == 0x3a3 then
          if meetsCased before && !meetsCased rest then [Char.ofNat 0x3c2] else [Char.ofNat 0x3c3]
        else lowercaseChar c
      mapped ++ lowercaseAfter (c :: before) rest

def lowercase (text : Text) : Text :=
  lowercaseAfter [] text

end ComponentDocs.Text
