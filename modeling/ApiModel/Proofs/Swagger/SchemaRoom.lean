import ApiModel.Proofs.Swagger.SchemaFields
import ApiModel.Proofs.Value.Height

namespace ApiModel.Schema

open Value

section Same

variable {room : Nat} {outer : List Nat} {v : Value}
  (same : ∀ u : Value, u.height ≤ room → readIn (room + 1) outer u = readIn room outer u)

include same

theorem readEach?_succ {v : Value} (low : v.height ≤ room) :
    readEach? (room + 1) outer v = readEach? room outer v := by
  cases v with
  | turn id content =>
    rw [height] at low
    rw [readEach?, readEach?, readEach?_succ low]
  | list items =>
    rw [readEach?, readEach?, readEach_eq, readEach_eq]
    refine congrArg (fun cs => some (Checked.indexed 0 cs)) (List.map_congr_left fun u mem => ?_)
    exact same u ((height_item mem).le.trans low)
  | _ => simp [readEach?]

theorem readTable?_succ {v : Value} (low : v.height ≤ room) :
    readTable? (room + 1) outer v = readTable? room outer v := by
  cases v with
  | turn id content =>
    rw [height] at low
    rw [readTable?, readTable?, readTable?_succ low]
  | map m =>
    have entries : readEntries (room + 1) outer m = readEntries room outer m := by
      rw [readEntries_eq, readEntries_eq]
      refine List.map_congr_left fun e mem => ?_
      rw [same e.2 ((height_entry mem).le.trans low)]
    rw [readTable?, readTable?, entries]
  | _ => simp [readTable?]

theorem partOf_succ (k : Scalar) (low : v.height ≤ room) :
    partOf (room + 1) outer k v = partOf room outer k v := by
  rw [partOf, partOf, itemsIn, itemsIn, propertiesIn, propertiesIn, additionalIn, additionalIn,
    readEach?_succ same low, readTable?_succ same low, same v low]

end Same

theorem readIn_succ : ∀ {room : Nat} {outer : List Nat} {v : Value}, v.height ≤ room →
    readIn (room + 1) outer v = readIn room outer v
  | 0, _, v, low => by
    have := one_le_height v
    omega
  | room + 1, outer, .turn id content, low => by
    rw [height] at low
    rw [readIn, readIn, readIn_succ low]
  | room + 1, outer, .map m, low => by
    rw [readIn, readIn, if_neg (by omega), if_neg (by omega), readParts_eq, readParts_eq]
    refine congrArg (fun parts => Entries.readWhole m (assemble m parts))
      (List.map_congr_left fun e mem => ?_)
    rw [Nat.add_sub_cancel, Nat.add_sub_cancel, partOf_succ (fun u low => readIn_succ low)]
    exact Nat.le_of_lt_succ ((height_entry mem).trans_le low)
  | _ + 1, _, .scalar _, _ | _ + 1, _, .list _, _ | _ + 1, _, .pair _ _, _ | _ + 1, _, .set _, _
  | _ + 1, _, .cut, _ => by simp [readIn]
-- a container that is marked has the room of its content, any other leaves less
termination_by room _ v => (room, v)

end ApiModel.Schema
