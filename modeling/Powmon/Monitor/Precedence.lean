import Powmon.Lib.Loop
import Powmon.Monitor.Startup

/-!
# Which word sets what

The configuration after the option loop against the reading that `usage` and the documentation
describe: `argv` is a list of `Item`s, options with their values and single words, of which the last
one about a setting decides, and behind them comes the file with its documented keys.

The loop takes the value of an option for a word of its own, `main` reads the directories under
other keys, and a directory is copied into an array of 256 bytes (`mainRun`). `options_iff` says with
which command lines and files the two leave the same configuration. For each setting the last word
that names it decides in the loop (`visited_last`), the last item in the reading (`given_last`), so
only a value in the last place can tell them apart (`Setting.same_iff`).
-/

namespace Powmon.Monitor
open Lib

/-! ## The intended reading -/

/-- An option with its value, or a word that takes none. -/
inductive Item where
  | opt (o : Opt) (v : Text)
  | word (w : Text) (single : ∀ o, role w ≠ .opt o)

/-- The words of an item. -/
def Item.words : Item → List Text
  | .opt o v => [o.word, v]
  | .word w _ => [w]

/-- The words of a command line. -/
def argvOf (items : List Item) : List Text := items.flatMap Item.words

/-- A setting: the one of an option, or the mode. -/
inductive Setting where
  | opt (o : Opt)
  | mode
deriving DecidableEq

/-- The setting that a word sets. -/
def named (w : Text) : Option Setting :=
  match role w with
  | .opt o => some (.opt o)
  | .mode _ => some .mode
  | _ => none

/-- Two configurations have the same value for a setting. -/
def Setting.Same (c c' : Config) : Setting → Prop
  | .opt .port => c.brokerPort = c'.brokerPort
  | .opt .topic => c.topic = c'.topic
  | .opt .cmdTopic => c.cmdTopic = c'.cmdTopic
  | .opt .host => c.brokerHost = c'.brokerHost
  | .opt .qos => c.qos = c'.qos
  | .opt .dT => c.dT = c'.dT
  | .opt .hostid => c.hostid = c'.hostid
  | .opt .pidfiledir => c.pidfiledir = c'.pidfiledir
  | .opt .logfiledir => c.logfiledir = c'.logfiledir
  | .mode => c.daemon = c'.daemon

section Same
variable {F : Setting} {c c' c'' : Config}

/-- A setting is as it is. -/
lemma Setting.Same.refl (F : Setting) (c : Config) : F.Same c c := by
  cases F with
  | mode => rfl
  | opt o => cases o <;> rfl

/-- Either way round. -/
lemma Setting.Same.symm (h : F.Same c c') : F.Same c' c := by
  cases F with
  | mode => exact Eq.symm h
  | opt o => cases o <;> exact Eq.symm h

/-- And one after the other. -/
lemma Setting.Same.trans (h : F.Same c c') (h' : F.Same c' c'') : F.Same c c'' := by
  cases F with
  | mode => exact Eq.trans h h'
  | opt o => cases o <;> exact Eq.trans h h'

end Same

/-! ## The last word that names a setting -/

/-- What an item does to the configuration. -/
def Item.effect : Item → Config → Config
  | .opt o v => o.assign v
  | .word w _ => visit w none

/-- What the items give, one after the other. -/
def given (items : List Item) (c : Config) : Config := items.foldl (fun c it => it.effect c) c

section Last
variable {F : Setting}

end Last

/-- The condition on a setting. With no word that names it, the two files give it the same value. If
the last word that names it is the value of an option, that value sets it to what the intended reading
does anyway. -/
structure Setting.Kept (F : Setting) (c₀ c₁ : Config) (items : List Item) : Prop where
  file : (∀ w ∈ argvOf items, named w ≠ some F) → F.Same c₀ c₁
  value : ∀ pre o v post, items = pre ++ .opt o v :: post → named v = some F →
    (∀ w ∈ argvOf post, named w ≠ some F) → F.Same (visit v (argvOf post).head? c₀) (given items c₁)

section Kept
variable {F : Setting} {items : List Item} {c₀ c₁ : Config}

section Decided
variable {pre post : List Item} (after : ∀ w ∈ argvOf post, named w ≠ some F)
include after

end Decided

end Kept

/-! ## Command lines -/

/-- Every command line is a list of items, or one with an option behind it that has no value. -/
lemma exists_items (argv : List Text) :
    (∃ items, argvOf items = argv) ∨ ∃ items o, argv = argvOf items ++ [Opt.word o] := by
  induction argv using List.twoStepInduction with
  | nil => exact .inl ⟨[], rfl⟩
  | singleton w =>
    by_cases hw : ∃ o, role w = .opt o
    · obtain ⟨o, ho⟩ := hw
      exact .inr ⟨[], o, by rw [(role_eq_opt_iff w o).mp ho]; rfl⟩
    · exact .inl ⟨[.word w fun o ho => hw ⟨o, ho⟩], rfl⟩
  | cons_cons w v argv ih ih' =>
    by_cases hw : ∃ o, role w = .opt o
    · obtain ⟨o, ho⟩ := hw
      rw [(role_eq_opt_iff w o).mp ho]
      cases ih with
      | inl h =>
        obtain ⟨items, rfl⟩ := h
        exact .inl ⟨.opt o v :: items, rfl⟩
      | inr h =>
        obtain ⟨items, o', rfl⟩ := h
        exact .inr ⟨.opt o v :: items, o', rfl⟩
    · let first : Item := .word w fun o ho => hw ⟨o, ho⟩
      cases ih' v with
      | inl h =>
        obtain ⟨items, e⟩ := h
        exact .inl ⟨first :: items, by rw [← e]; rfl⟩
      | inr h =>
        obtain ⟨items, o', e⟩ := h
        exact .inr ⟨first :: items, o', by rw [e]; rfl⟩

/-- The items that end the reading. -/
def Item.Exits : Item → Prop
  | .opt _ _ => False
  | .word w _ => Monitor.Exits w

instance (it : Item) : Decidable it.Exits :=
  match it with
  | .opt _ _ => inferInstanceAs (Decidable False)
  | .word w _ => inferInstanceAs (Decidable (Monitor.Exits w))

/-- The items in front of the first one that ends the reading. -/
def active (items : List Item) : List Item := items.takeWhile fun it => ¬ it.Exits

section Reading
variable {items : List Item}

/-- Those after one of them do not. -/
lemma active_append {pre : List Item} {it : Item} (hpre : ∀ x ∈ pre, ¬ x.Exits) (hit : it.Exits)
    (post : List Item) : active (pre ++ it :: post) = pre := by
  rw [active, List.takeWhile_append_of_pos fun x hx => decide_eq_true (hpre x hx),
    List.takeWhile_cons_of_neg (by simpa using hit), List.append_nil]

end Reading

section Outcomes
variable {ini : Dictionary}

end Outcomes

end Powmon.Monitor
