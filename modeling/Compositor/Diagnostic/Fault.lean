/-!
# Faults

A fault says what went wrong outside of the text being set: a missing file, a bad setting. Faults form chains,
in which a code and a message for users may be attached to an underlying fault. The code and the message of a
chain are those of its first coded member.
-/

namespace Compositor

/-- The codes by which faults and diagnostics are classed. -/
inductive FaultCode where
  | missing
  | invalid
  | configuration
  | internal
  | fatal
  | input
  | resource
  | interaction
deriving DecidableEq, Repr

namespace FaultCode

def number : FaultCode → Int
  | missing => 122
  | invalid => 123
  | configuration => 124
  | internal => 125
  | fatal => 126
  | input => 127
  | resource => 128
  | interaction => 129

/-- What a code number stands for. -/
def describe (code : Int) : String :=
  match code with
  | 0 => "OK"
  | 122 => "not found"
  | 123 => "invalid"
  | 124 => "configuration error"
  | 125 => "internal error"
  | 126 => "fatal error"
  | 127 => "input error"
  | 128 => "resource error"
  | 129 => "interaction aborted"
  | _ => "undefined error"

end FaultCode

/-- A chain of things that went wrong. -/
inductive Fault where
  /-- A fault with nothing but a message. -/
  | plain (message : String)
  /-- A code and a message for users, attached to a fault. -/
  | coded (code : Int) (user : String) (cause : Fault)
  /-- A label in front of a fault. -/
  | labelled (label : String) (cause : Fault)
deriving DecidableEq, Repr

namespace Fault

/-- A coded fault without another cause than its code. -/
def ofCode (code : Int) (user : String) : Fault :=
  coded code user (plain (FaultCode.describe code))

/-- A code and a message attached to a fault, or to the description of the code if there is none. -/
def wrap (cause : Option Fault) (code : Int) (user : String) : Fault :=
  match cause with
  | some cause => coded code user cause
  | none => ofCode code user

def message : Fault → String
  | plain message => message
  | coded code _ cause => "[" ++ toString code ++ "] " ++ cause.message
  | labelled label cause => label ++ ": " ++ cause.message

/-- The code of the first coded member of a chain. A chain without one is an internal error. -/
def code : Fault → Int
  | plain _ => FaultCode.internal.number
  | coded code _ _ => code
  | labelled _ cause => cause.code

/-- The message for users of the first coded member of a chain, or the description of the code. -/
def user : Fault → String
  | plain _ => FaultCode.describe FaultCode.internal.number
  | coded _ user _ => user
  | labelled _ cause => cause.user

/-- The chain has a coded member. -/
def isCoded : Fault → Bool
  | plain _ => false
  | coded _ _ _ => true
  | labelled _ cause => cause.isCoded

/-- The fault below the first member of a chain. -/
def cause? : Fault → Option Fault
  | plain _ => none
  | coded _ _ cause => some cause
  | labelled _ cause => some cause

end Fault

end Compositor
