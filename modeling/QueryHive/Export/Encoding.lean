/-! The code pages a text writer can emit. A page other than UTF-8 has one byte for each
character; a character it does not have is written as a question mark. -/
namespace QueryHive.Export

inductive Codec where
  | utf8 | ascii | latin1 | cp1252 | cp437 | cp850
  deriving DecidableEq, Repr

namespace Codec

def all : List Codec := [.utf8, .ascii, .latin1, .cp1252, .cp437, .cp850]

def label : Codec → String
  | .utf8 => "utf-8"
  | .ascii => "ascii"
  | .latin1 => "latin-1"
  | .cp1252 => "cp1252"
  | .cp437 => "cp437"
  | .cp850 => "cp850"

/-- The normalised names a page answers to. -/
def aliases : Codec → List String
  | .utf8 => ["utf_8", "u8", "utf", "utf8", "cp65001"]
  | .ascii => ["ascii", "us_ascii", "646", "cp367", "ibm367", "csascii", "iso646_us", "us"]
  | .latin1 =>
    ["latin_1", "8859", "cp819", "latin", "latin1", "l1", "iso8859", "iso8859_1", "iso_8859_1", "iso_8859_1_1987",
      "iso8859_1_1987", "iso_ir_100", "csisolatin1"]
  | .cp1252 => ["cp1252", "windows_1252"]
  | .cp437 => ["cp437", "437", "ibm437", "cspc8codepage437"]
  | .cp850 => ["cp850", "850", "ibm850", "cspc850multilingual"]

/-- The code of the page in the header of a dBase file. -/
def languageDriver : Codec → UInt8
  | .cp1252 => 3
  | .cp437 => 1
  | .cp850 => 2
  | .utf8 | .ascii | .latin1 => 0

def isUtf8 (codec : Codec) : Bool := codec = .utf8

/-- `normalize`: lower case, and one `_` for a run of anything that is not alphanumeric. What is
alphanumeric is Unicode's to say. -/
def normalizeFrom (alphanumeric : Char → Bool) : Bool → List Char → List Char → List Char
  | _, out, [] => out
  | separator, out, c :: rest =>
    if alphanumeric c || c == '.' then
      let out := if separator && !out.isEmpty then out ++ ['_'] else out
      normalizeFrom alphanumeric false (out ++ [c.toLower]) rest
    else normalizeFrom alphanumeric true out rest

def normalize (alphanumeric : Char → Bool) (name : String) : String :=
  String.ofList (normalizeFrom alphanumeric false [] name.toList)

/-- `Codec::resolve`: an unknown name is refused with the names that are known. -/
def resolve (alphanumeric : Char → Bool) (setting value : String) : Except String Codec :=
  match all.find? fun codec => codec.aliases.contains (normalize alphanumeric value) with
  | some codec => .ok codec
  | none =>
    .error ("unknown " ++ setting ++ " '" ++ value ++ "'; expected " ++
      ", ".intercalate (all.dropLast.map label) ++ " or " ++ (Codec.cp850).label)

/-- The second half of Windows-1252; zero is a byte without a character. -/
def cp1252High : List Nat :=
  [0x20ac, 0x0000, 0x201a, 0x0192, 0x201e, 0x2026, 0x2020, 0x2021, 0x02c6, 0x2030, 0x0160, 0x2039,
    0x0152, 0x0000, 0x017d, 0x0000, 0x0000, 0x2018, 0x2019, 0x201c, 0x201d, 0x2022, 0x2013, 0x2014,
    0x02dc, 0x2122, 0x0161, 0x203a, 0x0153, 0x0000, 0x017e, 0x0178, 0x00a0, 0x00a1, 0x00a2, 0x00a3,
    0x00a4, 0x00a5, 0x00a6, 0x00a7, 0x00a8, 0x00a9, 0x00aa, 0x00ab, 0x00ac, 0x00ad, 0x00ae, 0x00af,
    0x00b0, 0x00b1, 0x00b2, 0x00b3, 0x00b4, 0x00b5, 0x00b6, 0x00b7, 0x00b8, 0x00b9, 0x00ba, 0x00bb,
    0x00bc, 0x00bd, 0x00be, 0x00bf, 0x00c0, 0x00c1, 0x00c2, 0x00c3, 0x00c4, 0x00c5, 0x00c6, 0x00c7,
    0x00c8, 0x00c9, 0x00ca, 0x00cb, 0x00cc, 0x00cd, 0x00ce, 0x00cf, 0x00d0, 0x00d1, 0x00d2, 0x00d3,
    0x00d4, 0x00d5, 0x00d6, 0x00d7, 0x00d8, 0x00d9, 0x00da, 0x00db, 0x00dc, 0x00dd, 0x00de, 0x00df,
    0x00e0, 0x00e1, 0x00e2, 0x00e3, 0x00e4, 0x00e5, 0x00e6, 0x00e7, 0x00e8, 0x00e9, 0x00ea, 0x00eb,
    0x00ec, 0x00ed, 0x00ee, 0x00ef, 0x00f0, 0x00f1, 0x00f2, 0x00f3, 0x00f4, 0x00f5, 0x00f6, 0x00f7,
    0x00f8, 0x00f9, 0x00fa, 0x00fb, 0x00fc, 0x00fd, 0x00fe, 0x00ff]

def cp437High : List Nat :=
  [0x00c7, 0x00fc, 0x00e9, 0x00e2, 0x00e4, 0x00e0, 0x00e5, 0x00e7, 0x00ea, 0x00eb, 0x00e8, 0x00ef,
    0x00ee, 0x00ec, 0x00c4, 0x00c5, 0x00c9, 0x00e6, 0x00c6, 0x00f4, 0x00f6, 0x00f2, 0x00fb, 0x00f9,
    0x00ff, 0x00d6, 0x00dc, 0x00a2, 0x00a3, 0x00a5, 0x20a7, 0x0192, 0x00e1, 0x00ed, 0x00f3, 0x00fa,
    0x00f1, 0x00d1, 0x00aa, 0x00ba, 0x00bf, 0x2310, 0x00ac, 0x00bd, 0x00bc, 0x00a1, 0x00ab, 0x00bb,
    0x2591, 0x2592, 0x2593, 0x2502, 0x2524, 0x2561, 0x2562, 0x2556, 0x2555, 0x2563, 0x2551, 0x2557,
    0x255d, 0x255c, 0x255b, 0x2510, 0x2514, 0x2534, 0x252c, 0x251c, 0x2500, 0x253c, 0x255e, 0x255f,
    0x255a, 0x2554, 0x2569, 0x2566, 0x2560, 0x2550, 0x256c, 0x2567, 0x2568, 0x2564, 0x2565, 0x2559,
    0x2558, 0x2552, 0x2553, 0x256b, 0x256a, 0x2518, 0x250c, 0x2588, 0x2584, 0x258c, 0x2590, 0x2580,
    0x03b1, 0x00df, 0x0393, 0x03c0, 0x03a3, 0x03c3, 0x00b5, 0x03c4, 0x03a6, 0x0398, 0x03a9, 0x03b4,
    0x221e, 0x03c6, 0x03b5, 0x2229, 0x2261, 0x00b1, 0x2265, 0x2264, 0x2320, 0x2321, 0x00f7, 0x2248,
    0x00b0, 0x2219, 0x00b7, 0x221a, 0x207f, 0x00b2, 0x25a0, 0x00a0]

def cp850High : List Nat :=
  [0x00c7, 0x00fc, 0x00e9, 0x00e2, 0x00e4, 0x00e0, 0x00e5, 0x00e7, 0x00ea, 0x00eb, 0x00e8, 0x00ef,
    0x00ee, 0x00ec, 0x00c4, 0x00c5, 0x00c9, 0x00e6, 0x00c6, 0x00f4, 0x00f6, 0x00f2, 0x00fb, 0x00f9,
    0x00ff, 0x00d6, 0x00dc, 0x00f8, 0x00a3, 0x00d8, 0x00d7, 0x0192, 0x00e1, 0x00ed, 0x00f3, 0x00fa,
    0x00f1, 0x00d1, 0x00aa, 0x00ba, 0x00bf, 0x00ae, 0x00ac, 0x00bd, 0x00bc, 0x00a1, 0x00ab, 0x00bb,
    0x2591, 0x2592, 0x2593, 0x2502, 0x2524, 0x00c1, 0x00c2, 0x00c0, 0x00a9, 0x2563, 0x2551, 0x2557,
    0x255d, 0x00a2, 0x00a5, 0x2510, 0x2514, 0x2534, 0x252c, 0x251c, 0x2500, 0x253c, 0x00e3, 0x00c3,
    0x255a, 0x2554, 0x2569, 0x2566, 0x2560, 0x2550, 0x256c, 0x00a4, 0x00f0, 0x00d0, 0x00ca, 0x00cb,
    0x00c8, 0x0131, 0x00cd, 0x00ce, 0x00cf, 0x2518, 0x250c, 0x2588, 0x2584, 0x00a6, 0x00cc, 0x2580,
    0x00d3, 0x00df, 0x00d4, 0x00d2, 0x00f5, 0x00d5, 0x00b5, 0x00fe, 0x00de, 0x00da, 0x00db, 0x00d9,
    0x00fd, 0x00dd, 0x00af, 0x00b4, 0x00ad, 0x00b1, 0x2017, 0x00be, 0x00b6, 0x00a7, 0x00f7, 0x00b8,
    0x00b0, 0x00a8, 0x00b7, 0x00b9, 0x00b3, 0x00b2, 0x25a0, 0x00a0]

/-- `high_byte`: a page whose first half is ASCII. -/
def highByte (table : List Nat) (code : Nat) : Option UInt8 :=
  if code ≤ 0x7f then some (UInt8.ofNat code)
  else (table.findIdx? (· == code)).map fun index => 0x80 + UInt8.ofNat index

/-- `encode_single_byte`. -/
def encodeSingleByte (byteFor : Nat → Option UInt8) (text : String) : List UInt8 :=
  text.toList.map fun c => (byteFor c.toNat).getD 0x3f

/-- `Codec::encode`. -/
def encode (codec : Codec) (text : String) : List UInt8 :=
  match codec with
  | .utf8 => text.toUTF8.data.toList
  | .ascii => encodeSingleByte (fun code => if code ≤ 0x7f then some (UInt8.ofNat code) else none) text
  | .latin1 => encodeSingleByte (fun code => if code ≤ 0xff then some (UInt8.ofNat code) else none) text
  | .cp1252 => encodeSingleByte (highByte cp1252High) text
  | .cp437 => encodeSingleByte (highByte cp437High) text
  | .cp850 => encodeSingleByte (highByte cp850High) text

end Codec

end QueryHive.Export
