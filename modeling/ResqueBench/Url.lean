import Mathlib

/-! URLs by their components, and what a URL library documents about its parser, its
serializer and its setters. -/

namespace Web

structure Url where
  scheme : String
  username : String
  password : Option String
  host : Option String
  port : Option UInt16
  path : String
  query : Option String
  fragment : Option String
  authority : Bool -- `//` follows the scheme
  cannotBeABase : Bool
deriving DecidableEq, Repr

def Url.withPassword (u : Url) (p : String) : Url := { u with password := some p }

/-- A URL that can have a password. -/
structure Url.Hosted (u : Url) : Prop where
  host : u.host ≠ none
  scheme : u.scheme ≠ "file"

def isUnreserved (c : Char) : Bool := c.isAlphanum || ['-', '.', '_', '~'].contains c

structure Unreserved (s : String) : Prop where
  nonempty : s ≠ ""
  unreserved : ∀ c ∈ s.toList, isUnreserved c = true

/-- A URL with a password in its userinfo, written out. -/
def withUserinfo (scheme user password rest : String) : String :=
  scheme ++ "://" ++ user ++ ":" ++ password ++ "@" ++ rest

def special (scheme : String) : Bool :=
  ["http", "https", "ws", "wss", "ftp", "file"].contains scheme

/-- Neither part holds a character that would end it early. -/
structure BeforePassword (scheme user : String) : Prop where
  colon : ':' ∉ scheme.toList
  delimiter : ∀ c ∈ user.toList, ['/', '?', '#', ':'].contains c = false
  /-- A special URL has its authority end at a backslash, too. -/
  backslash : '\\' ∈ user.toList → special scheme.toLower = false ∧
    ∀ c ∈ scheme.toList, (c.isAlphanum || ['+', '-', '.'].contains c) = true

/-- What a URL's text has before its first colon. -/
def schemeOf (s : String) : String := String.ofList (s.toList.takeWhile (· ≠ ':'))

structure UrlLibrary where
  parse : String → Except String Url
  serialize : Url → String
  setScheme : Url → String → Option Url
  setHost : Url → String → Option Url
  setPort : Url → UInt16 → Option Url
  setPassword : Url → String → Option Url
  setPath : Url → String → Url
  setFragment : Url → String → Url
  encode : String → String -- what a password becomes in a URL

namespace UrlLibrary

/-- What the parser returns, and what the setters make of it. -/
inductive Made (lib : UrlLibrary) : Url → Prop
  | parse {s : String} {u : Url} (h : lib.parse s = .ok u) : Made lib u
  | setScheme {u v : Url} {s : String} (h : Made lib u) (hv : lib.setScheme u s = some v) : Made lib v
  | setHost {u v : Url} {host : String} (h : Made lib u) (hv : lib.setHost u host = some v) :
      Made lib v
  | setPort {u v : Url} {port : UInt16} (h : Made lib u) (hv : lib.setPort u port = some v) :
      Made lib v
  | setPassword {u v : Url} {password : String} (h : Made lib u)
      (hv : lib.setPassword u password = some v) : Made lib v
  | setPath {u : Url} {segment : String} (h : Made lib u) (hs : Unreserved segment) :
      Made lib (lib.setPath u ("/" ++ segment))
  | setFragment {u : Url} {fragment : String} (h : Made lib u) (hf : Unreserved fragment) :
      Made lib (lib.setFragment u fragment)

/-- A setter that does not look at the password, if there is one. -/
def Blind (set : Url → Option Url) : Prop :=
  ∀ u q, u.password ≠ none → set (u.withPassword q) = (set u).map (fun v => v.withPassword q)

/-- What the library documents. -/
structure Lawful (lib : UrlLibrary) : Prop where
  setScheme_only : ∀ {u v s}, (∀ c ∈ s.toList, c.isLower = true) → lib.setScheme u s = some v →
    ∃ port, v = { u with scheme := s, port := port }
  setScheme_ok : ∀ {u s}, special u.scheme = false → special s = false → s ≠ "" →
    (∀ c ∈ s.toList, c.isLower = true) → (lib.setScheme u s).isSome = true
  setHost_only : ∀ {u v host}, lib.setHost u host = some v →
    ∃ host, v = { u with host := host, authority := true }
  setPort_only : ∀ {u v port}, lib.setPort u port = some v → ∃ port, v = { u with port := port }
  setPort_hostless : ∀ {u} port, u.host = none → lib.setPort u port = none
  setPassword_only : ∀ {u v password}, lib.setPassword u password = some v →
    ∃ password, v = { u with password := password }
  setPassword_refused : ∀ {u} password, ¬ u.Hosted → lib.setPassword u password = none
  setPassword_hosted : ∀ {u password}, u.Hosted → password ≠ "" →
    lib.setPassword u password = some (u.withPassword (lib.encode password))
  setPassword_empty : ∀ {u}, u.Hosted → lib.setPassword u "" = some { u with password := none }
  setPath_only : ∀ u p, ∃ path, lib.setPath u p = { u with path := path }
  setFragment_unreserved : ∀ {u fragment}, Unreserved fragment →
    lib.setFragment u fragment = { u with fragment := some fragment }
  setScheme_blind : ∀ s, Blind (lib.setScheme · s)
  setHost_blind : ∀ host, Blind (lib.setHost · host)
  setPort_blind : ∀ port, Blind (lib.setPort · port)
  setPath_blind : ∀ p, Blind (fun u => some (lib.setPath u p))
  parse_hosted : ∀ {s u}, lib.parse s = .ok u → u.password ≠ none → u.Hosted
  /-- The parser takes the whole of an unreserved password for a part of the password. -/
  parse_password : ∀ {scheme user password password' rest u}, BeforePassword scheme user →
    Unreserved password → Unreserved password' →
    lib.parse (withUserinfo scheme user password rest) = .ok u →
    ∃ p p', u.password = some p ∧ (p = p' → password = password') ∧
      lib.parse (withUserinfo scheme user password' rest) = .ok (u.withPassword p')
  reparse_hosted : ∀ {u}, lib.Made u → u.Hosted → u.password ≠ none →
    lib.parse (lib.serialize u) = .ok u
  reparse_hostless : ∀ {u v}, lib.Made u → u.password ≠ none → u.host = none →
    lib.parse (lib.serialize u) ≠ .ok v
  reparse_keeps : ∀ {u v}, lib.Made u → lib.parse (lib.serialize u) = .ok v →
    v.scheme = u.scheme ∧ v.fragment = u.fragment
  serialize_scheme : ∀ {u}, lib.Made u → schemeOf (lib.serialize u) = u.scheme
  serialize_password : ∀ {u p q}, lib.Made u → u.password = some p →
    lib.serialize (u.withPassword q) = lib.serialize u → q = p

end UrlLibrary

end Web
