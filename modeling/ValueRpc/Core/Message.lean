/-
  ValueRpc.Core.Message — the fields of an envelope as a handshake reads them
  (`valuerpc/protocol.go`: `Dialect`, `ValidMagicAndVersion`, `GetNumberField`,
  `GetStringField`).

  A message is what `Get` answers for each field name. A number is read as an int64 or as
  a float64, and a message may hold any of the two; a version that is not a number (NaN)
  compares greater than nothing and passes.
-/

import ValueRpc.Core.HashChain

namespace ValueRpc.Core

inductive Double
  | fin (q : Rat)
  | posInf
  | negInf
  | nan
  deriving DecidableEq

def Double.gt : Double → Double → Bool
  | nan, _ | _, nan => false
  | posInf, posInf => false
  | posInf, _ => true
  | negInf, _ => false
  | fin _, posInf => false
  | fin _, negInf => true
  | fin a, fin b => decide (b < a)

structure Number where
  long : Int
  double : Double
  deriving DecidableEq

inductive Field
  /-- Absent, nil or `value.Null`. -/
  | absent
  | number (n : Number)
  | string (s : Bytes)
  | other (id : Nat)
  deriving DecidableEq

abbrev Msg := String → Field

def getNumberField (m : Msg) (field : String) : Option Number :=
  match m field with
  | .number n => some n
  | _ => none

def getStringField (m : Msg) (field : String) : Option Bytes :=
  match m field with
  | .string s => some s
  | _ => none

def handshakeRequest : Int := 0

structure Dialect where
  magic : Bytes
  version : Double
  messageTypeField : String
  magicField : String
  versionField : String
  clientIdField : String
  sessionTokenField : String
  authField : String

def newDialect : Dialect where
  magic := [118, 82, 80, 67] -- "vRPC"
  version := .fin 1
  messageTypeField := "t"
  magicField := "m"
  versionField := "v"
  clientIdField := "cid"
  sessionTokenField := "tok"
  authField := "auth"

def Dialect.validMagicAndVersion (d : Dialect) (req : Msg) : Bool :=
  match getStringField req d.magicField with
  | none => false
  | some magic =>
    if magic ≠ d.magic then false
    else
      match getNumberField req d.versionField with
      | none => false
      | some version => !version.double.gt d.version

end ValueRpc.Core
