/-
What peers say they run, and which nodes are new enough.

A peer introduces itself with an agent string such as `ant/node/1.0/0.4.15/1`.  Its type
is told by looking for words anywhere in the string, and its version by taking the
string apart at the slashes; the two do not have to agree on where the words stand.
-/
import Mathlib.Algebra.Group.Nat.Defs
import Mathlib.Data.List.Infix

namespace Autonomi

abbrev Text := List Char

def Text.includes (text : Text) (word : String) : Bool := decide (word.toList <:+: text)

structure PeerVersion where
  major : UInt16
  minor : UInt16
  patch : UInt16
deriving DecidableEq

def minNodeVersion : PeerVersion := ⟨0, 4, 15⟩

/-- `str::parse::<u16>`: digits, with a plus in front if one likes. -/
def parseU16 (text : Text) : Option UInt16 :=
  let digits := match text with
    | '+' :: rest => rest
    | text => text
  if digits.isEmpty then none
  else
    (digits.foldlM (fun (value : Nat) (c : Char) =>
      if c.isDigit then some (value * 10 + (c.toNat - 48)) else none) 0).bind fun value =>
        if value < 2 ^ 16 then some (.ofNat value) else none

namespace PeerVersion

/-- Parse a version like `0.4.13` or `0.4.13-alpha.1`; what follows a hyphen is left out. -/
def parseSemver (version : Text) : Option PeerVersion := do
  let versionCore ← (version.splitOn '-').head?
  match versionCore.splitOn '.' with
  | major :: minor :: patch :: _ =>
    return ⟨← parseU16 major, ← parseU16 minor, ← parseU16 patch⟩
  | _ => none

/-- The version is the fourth of at least five parts, if the first is `ant`. -/
def parseFromAgentString (agent : Text) : Option PeerVersion :=
  match agent.splitOn '/' with
  | ant :: _ :: _ :: version :: _ :: _ =>
    if ant ≠ "ant".toList then none else parseSemver version
  | _ => none

def meetsMinimum (version minimum : PeerVersion) : Bool :=
  minimum.major < version.major ∨
    minimum.major = version.major ∧
      (minimum.minor < version.minor ∨
        minimum.minor = version.minor ∧ minimum.patch ≤ version.patch)

end PeerVersion

/-- The environment variable comes first, if it is a version. -/
def getMinNodeVersion (envVersion : Option Text) : PeerVersion :=
  (envVersion.bind PeerVersion.parseSemver).getD minNodeVersion

inductive VersionCheckResult
  | accepted (version : PeerVersion)
  | rejected (detected minimum : PeerVersion)
  | legacy
  | parseError (agentString : Text)
deriving DecidableEq

inductive PeerType
  | node
  | client
  | reachabilityCheckClient
  | unknown
deriving DecidableEq

def PeerType.fromAgentString (agent : Text) : PeerType :=
  if agent.includes "/node/" then .node
  else if agent.includes "reachability-check-peer" then .reachabilityCheckClient
  else if agent.includes "/client/" || agent.includes "client" then .client
  else .unknown

/-- Without a minimum every version will do. -/
def checkPeerVersion (agentString : Text) (minVersion : Option PeerVersion) :
    VersionCheckResult :=
  match minVersion with
  | none =>
    match PeerVersion.parseFromAgentString agentString with
    | some version => .accepted version
    | none => .legacy
  | some minVersion =>
    match PeerVersion.parseFromAgentString agentString with
    | some version =>
      if version.meetsMinimum minVersion then .accepted version
      else .rejected version minVersion
    | none =>
      if "ant/".toList <+: agentString then .legacy else .parseError agentString

end Autonomi
