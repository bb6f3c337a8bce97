import Mathlib.Data.List.Basic

/-! The lexical families of `scan.rs`. A `Lexer` is one concrete set of rules; the
fields of the source are private and only four constructors build one, so the family
constraints they satisfy are carried as a field here. A dialect is the list of lexers
its server may be using. Texts are lists of bytes throughout. -/
namespace QueryHive.Sql

namespace Byte

abbrev tab : UInt8 := 0x09
abbrev newline : UInt8 := 0x0a
abbrev verticalTab : UInt8 := 0x0b
abbrev formFeed : UInt8 := 0x0c
abbrev carriageReturn : UInt8 := 0x0d
abbrev space : UInt8 := 0x20
abbrev bang : UInt8 := 0x21
abbrev doubleQuote : UInt8 := 0x22
abbrev hash : UInt8 := 0x23
abbrev dollar : UInt8 := 0x24
abbrev ampersand : UInt8 := 0x26
abbrev quote : UInt8 := 0x27
abbrev openParen : UInt8 := 0x28
abbrev closeParen : UInt8 := 0x29
abbrev star : UInt8 := 0x2a
abbrev comma : UInt8 := 0x2c
abbrev dash : UInt8 := 0x2d
abbrev slash : UInt8 := 0x2f
abbrev colon : UInt8 := 0x3a
abbrev semicolon : UInt8 := 0x3b
abbrev equals : UInt8 := 0x3d
abbrev atSign : UInt8 := 0x40
abbrev backslash : UInt8 := 0x5c
abbrev underscore : UInt8 := 0x5f
abbrev backtick : UInt8 := 0x60

attribute [simp] tab newline verticalTab formFeed carriageReturn space bang doubleQuote hash
  dollar ampersand quote openParen closeParen star comma dash slash colon semicolon equals
  atSign backslash underscore backtick

/-- The bytes of an ASCII literal of the source. -/
def ofAscii (text : String) : List UInt8 := text.toList.map fun c => c.toNat.toUInt8

def isAsciiDigit (byte : UInt8) : Bool := 0x30 ≤ byte && byte ≤ 0x39

def isAsciiAlphabetic (byte : UInt8) : Bool :=
  (0x41 ≤ byte && byte ≤ 0x5a) || (0x61 ≤ byte && byte ≤ 0x7a)

def isAsciiAlphanumeric (byte : UInt8) : Bool := isAsciiAlphabetic byte || isAsciiDigit byte

/-- `u8::is_ascii_whitespace`, which leaves the vertical tab out. -/
def isAsciiWhitespace (byte : UInt8) : Bool :=
  byte == space || byte == tab || byte == newline || byte == formFeed || byte == carriageReturn

/-- `is_space` of the formatter, which has the vertical tab. -/
def isSpace (byte : UInt8) : Bool := isAsciiWhitespace byte || byte == verticalTab

def isAsciiControl (byte : UInt8) : Bool := byte < 0x20 || byte == 0x7f

def toAsciiUppercase (byte : UInt8) : UInt8 :=
  if 0x61 ≤ byte && byte ≤ 0x7a then byte - 0x20 else byte

def toAsciiLowercase (byte : UInt8) : UInt8 :=
  if 0x41 ≤ byte && byte ≤ 0x5a then byte + 0x20 else byte

end Byte

/-- `<[u8]>::to_ascii_uppercase`. -/
def asciiUppercase (text : List UInt8) : List UInt8 := text.map Byte.toAsciiUppercase

def asciiLowercase (text : List UInt8) : List UInt8 := text.map Byte.toAsciiLowercase

/-- `<[u8]>::eq_ignore_ascii_case`. -/
def eqIgnoreAsciiCase (left right : List UInt8) : Bool :=
  asciiLowercase left == asciiLowercase right

/-- The SQL family a connection's text is read under. -/
inductive Dialect where
  | generic | mysql | postgres | trino
  deriving DecidableEq, Repr

/-- One concrete set of lexical rules. The source keeps the fields private and builds
the generic lexer, Trino's, six of MySQL's and four of PostgreSQL's; `families` is what
those constructors have in common. -/
structure Lexer where
  mysqlSyntax : Bool
  trino : Bool
  postgres : Bool
  backslashEscapes : Bool
  vtIsSpace : Bool
  ansiQuotes : Bool
  executableCode : Bool
  families : (mysqlSyntax → trino = false ∧ postgres = false) ∧ (trino → postgres = false) ∧
    (backslashEscapes → mysqlSyntax || postgres) ∧ (vtIsSpace → postgres) ∧
    (ansiQuotes → mysqlSyntax) ∧ (executableCode → mysqlSyntax)
  deriving DecidableEq

namespace Lexer

/-- `Lexer::GENERIC`. -/
def generic : Lexer where
  mysqlSyntax := false
  trino := false
  postgres := false
  vtIsSpace := false
  backslashEscapes := false
  ansiQuotes := false
  executableCode := false
  families := by simp

/-- `Lexer::mysql`. -/
def mysql (backslashEscapes ansiQuotes executableCode : Bool) : Lexer where
  mysqlSyntax := true
  trino := false
  postgres := false
  vtIsSpace := false
  backslashEscapes
  ansiQuotes
  executableCode
  families := by simp

/-- `Lexer::TRINO`. -/
def onTrino : Lexer where
  mysqlSyntax := false
  trino := true
  postgres := false
  vtIsSpace := false
  backslashEscapes := false
  ansiQuotes := false
  executableCode := false
  families := by simp

/-- `Lexer::postgres`: `backslashEscapes` is `standard_conforming_strings = off`. -/
def onPostgres (backslashEscapes vtIsSpace : Bool) : Lexer where
  mysqlSyntax := false
  trino := false
  postgres := true
  vtIsSpace
  backslashEscapes
  ansiQuotes := false
  executableCode := false
  families := by simp

def runsExecutableComments (lexer : Lexer) : Bool := lexer.executableCode
def dollarQuotes (lexer : Lexer) : Bool := !lexer.mysqlSyntax && !lexer.trino
def identDollar (lexer : Lexer) : Bool := lexer.mysqlSyntax || lexer.postgres
def unicodeIdent (lexer : Lexer) : Bool := lexer.postgres
def backtickQuotes (lexer : Lexer) : Bool := !lexer.postgres && !lexer.trino
def nestedComments (lexer : Lexer) : Bool := lexer.postgres
def crEndsLine (lexer : Lexer) : Bool := lexer.postgres || lexer.trino
def isPostgres (lexer : Lexer) : Bool := lexer.postgres
def isMysql (lexer : Lexer) : Bool := lexer.mysqlSyntax
def hashComment (lexer : Lexer) : Bool := lexer.mysqlSyntax
def dashNeedsSpace (lexer : Lexer) : Bool := lexer.mysqlSyntax
def singleBackslash (lexer : Lexer) : Bool := lexer.backslashEscapes
def doubleBackslash (lexer : Lexer) : Bool :=
  lexer.backslashEscapes && !lexer.ansiQuotes && !lexer.postgres

/-- Only PostgreSQL's lexers are PostgreSQL's: no other family's rule is on with it. -/
theorem postgres_alone (lexer : Lexer) (postgres : lexer.postgres = true) :
    lexer.mysqlSyntax = false ∧ lexer.trino = false ∧ lexer.executableCode = false := by
  obtain ⟨mysql, trino, -, -, -, executable⟩ := lexer.families
  grind

end Lexer

/-- `Dialect::readings`: every lexer a guard must satisfy for a connection of this dialect. -/
def Dialect.readings : Dialect → List Lexer
  | .generic => [.generic]
  | .mysql =>
    [.mysql true false true, .mysql true true true, .mysql false false true,
      .mysql true false false, .mysql true true false, .mysql false false false]
  | .postgres =>
    [.onPostgres false true, .onPostgres true true, .onPostgres false false,
      .onPostgres true false]
  | .trino => [.onTrino]

end QueryHive.Sql
