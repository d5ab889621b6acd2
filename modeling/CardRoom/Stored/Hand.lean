import CardRoom.Deck
import CardRoom.Hand.Ranking
import CardRoom.Json.Format

/-! # Records of cards and hands -/

namespace CardRoom.Stored

open Json Format

def card : Format Card := word8.via (some ⟨·⟩) Card.code

def deck : Format Deck :=
  record ["cards"] (fun d => [(list card).write d.cards]) fun
    | [cards] => do return ⟨← required (list card) cards⟩
    | _ => none

/-- A category by its name, alone or as the only key of an object that holds nothing for it. -/
def category : Format Category where
  read
    | .text q => q.text?.bind Category.ofName?
    | .object [(key, .null)] => key.text?.bind Category.ofName?
    | _ => none
  write c := .ofString c.name

def score : Format Score := word32.via (some ⟨·⟩) Score.points

def ranking : Format Ranking :=
  record ["rank", "kickers"]
    (fun r => [category.write r.category, (list word8).write r.kickers]) fun
    | [rank, kickers] => do return ⟨← required category rank, ← required (list word8) kickers⟩
    | _ => none

end CardRoom.Stored
