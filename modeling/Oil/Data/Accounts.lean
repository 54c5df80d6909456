import Mathlib.Data.List.Perm.Basic
import Mathlib.Data.List.Nodup

namespace Oil.Data

/-! # Keeping account of what is owned

Things are issued, held for a while and released.  The books are balanced when whatever was
issued is either still held or has been released, as often as it was issued. -/

variable {α : Type} {issued held released more held' gone : List α} {x : α}

def Balanced (issued held released : List α) : Prop := issued.Perm (held ++ released)

namespace Balanced

theorem empty : Balanced ([] : List α) [] [] := .nil

theorem takeIn (more : List α) (balanced : Balanced issued held released) :
    Balanced (issued ++ more) (more ++ held) released :=
  calc (issued ++ more).Perm (held ++ released ++ more) := balanced.append_right more
    List.Perm _ (more ++ (held ++ released)) := List.perm_append_comm
    _ = more ++ held ++ released := (List.append_assoc ..).symm

theorem letGo (balanced : Balanced issued held released) (moved : held.Perm (held' ++ gone)) :
    Balanced issued held' (released ++ gone) :=
  calc issued.Perm (held ++ released) := balanced
    List.Perm _ (held' ++ gone ++ released) := moved.append_right released
    _ = held' ++ (gone ++ released) := List.append_assoc ..
    List.Perm _ (held' ++ (released ++ gone)) := List.perm_append_comm.append_left held'

/-- One step: what it takes in and what was held before is held after it or let go by it. -/
theorem step (balanced : Balanced issued held released) (moved : (more ++ held).Perm (held' ++ gone)) :
    Balanced (issued ++ more) held' (released ++ gone) :=
  (balanced.takeIn more).letGo moved

/-- What was issued once and is still held has not been released. -/
theorem not_released (balanced : Balanced issued held released) (once : issued.Nodup) (member : x ∈ held) :
    x ∉ released := by
  have apart := List.nodup_append.mp (balanced.nodup_iff.mp once)
  exact fun gone => apart.2.2 x member x gone rfl

/-- When nothing is held any more, what was issued once has been released once. -/
theorem released_once [DecidableEq α] (balanced : Balanced issued [] released) (once : issued.Nodup)
    (member : x ∈ issued) : released.count x = 1 := by
  rw [Balanced, List.nil_append] at balanced
  exact List.count_eq_one_of_mem (balanced.nodup_iff.mp once) (balanced.mem_iff.mp member)

end Balanced

end Oil.Data
