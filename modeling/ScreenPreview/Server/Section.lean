import ScreenPreview.Toml.Document

/-! The settings of one section. A value of the wrong kind spoils the whole document. -/
namespace ScreenPreview.Server

/-- A value by the name of the setting, or by its place where the section is written as a list. -/
abbrev Section := String → Nat → Option Toml.Value

namespace Section

def ofValue? : Toml.Value → Option Section
  | .table _ members => some fun name _ => members.lookup name
  | .list items => some fun _ place => items[place]?
  | .rows rows => some fun _ place => rows[place]?.map (.table .header)
  | .moment => some fun _ _ => none
  | _ => none

def find? (members : Toml.Members) (name : String) : Option Section :=
  match members.lookup name with
  | some value => ofValue? value
  | none => some fun _ _ => none

def text (s : Section) (name : String) (place : Nat) (fallback : String) : Option String :=
  match s name place with
  | none => some fallback
  | some (.text value) => some value
  | some _ => none

def bool (s : Section) (name : String) (place : Nat) (fallback : Bool) : Option Bool :=
  match s name place with
  | none => some fallback
  | some (.bool value) => some value
  | some _ => none

def int (s : Section) (name : String) (place : Nat) (least greatest fallback : Int) :
    Option Int :=
  match s name place with
  | none => some fallback
  | some (.int value) => if least ≤ value ∧ value ≤ greatest then some value else none
  | some _ => none

def side (s : Section) (name : String) (place : Nat) (fallback : Int32) : Option Int32 :=
  (s.int name place (-0x80000000) 0x7FFFFFFF fallback.toInt).map Int32.ofInt

def count (s : Section) (name : String) (place : Nat) (fallback : Nat) : Option Nat :=
  (s.int name place 0 0x7FFFFFFFFFFFFFFF fallback).map Int.toNat

end Section

end ScreenPreview.Server
