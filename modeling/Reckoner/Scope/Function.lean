/-! Functions of one number that may have no value at an argument, and the ones that
are bound by default. -/

namespace Reckoner

structure DomainError where
  reason : String
  deriving DecidableEq

abbrev UnaryFunction := Float → Except DomainError Float

namespace UnaryFunction

def sine : UnaryFunction := fun x => .ok x.sin

def cosine : UnaryFunction := fun x => .ok x.cos

/-- Cosines smaller than this count as zero. -/
def poleWidth : Float := 1e-10

def tangent : UnaryFunction := fun x =>
  if x.cos.abs < poleWidth then .error ⟨"tangent is undefined"⟩ else .ok (x.sin / x.cos)

def logarithm : UnaryFunction := fun x =>
  if x ≤ 0 then .error ⟨"logarithm of a non-positive number"⟩ else .ok x.log

def squareRoot : UnaryFunction := fun x =>
  if x < 0 then .error ⟨"square root of a negative number"⟩ else .ok x.sqrt

def standard : List (String × UnaryFunction) :=
  [("sin", sine), ("cos", cosine), ("tg", tangent), ("ln", logarithm), ("sqrt", squareRoot)]

end UnaryFunction

end Reckoner
