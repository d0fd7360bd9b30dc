import CartPatch.Text.Basic

/-!
The builds of the game that patches are made for. Addresses differ from build to build, so
symbols and hooks are kept for each build on its own.
-/

namespace CartPatch

inductive Build where
  | mp1Usa
  | mp2Usa
  | mp3Usa
  deriving DecidableEq, Repr

namespace Build

def all : List Build := [mp1Usa, mp2Usa, mp3Usa]

def id : Build → String
  | mp1Usa => "MP1_USA"
  | mp2Usa => "MP2_USA"
  | mp3Usa => "MP3_USA"

/-- The build with a given id, in capital or small letters. -/
def ofText? (t : Text) : Option Build := all.find? fun b => Text.sameName b.id t

theorem ofText?_id (b : Build) : ofText? b.id = some b := by cases b <;> decide

end Build

end CartPatch
