import EventHub.Proofs.Json.Results
import EventHub.Web.PublishRequest
/-!
# The data of a request to publish

Whatever a request contains, the event that is taken from it has data that the relay can carry: they
are nested two levels less deep than the reader of relayed messages goes.
-/

namespace EventHub.Web.PublishRequest

open Json

def Draft.Carriable (d : Draft) : Prop :=
  ∀ v, d.data = some v → v.Valid ∧ v.depth < maxDepth - 1

theorem keeps_carriable : ∀ m ∈ shape.members, Shape.Keeps Draft.Carriable m := by
  intro m hm d text d' rest hd h
  simp only [shape, List.mem_cons, List.not_mem_nil, or_false] at hm
  rcases hm with rfl | rfl | rfl
  · obtain ⟨p, _, heq⟩ := map_eq_ok h
    cases heq
    exact hd
  · obtain ⟨⟨v, behind⟩, hread, heq⟩ := map_eq_ok h
    cases heq
    intro v' hv'
    cases hv'
    exact readWithin_sound (by decide) hread
  · obtain ⟨p, _, heq⟩ := map_eq_ok h
    cases heq
    exact hd

theorem read_sound {text : List Char} {e : Event} (h : read text = .ok e) :
    e.payload.Valid ∧ e.payload.depth < maxDepth - 1 := by
  obtain ⟨⟨e', rest⟩, hread, heq⟩ := map_eq_ok h
  cases heq
  have hempty : Draft.Carriable {} := by
    intro v hv
    cases hv
  obtain ⟨d, hd, hfinish⟩ := Shape.read_keeps keeps_carriable hempty hread
  unfold Draft.finish at hfinish
  split at hfinish
  · cases hfinish
  · cases hfinish
    cases hdata : d.data with
    | none => exact ⟨trivial, show 0 < maxDepth - 1 by decide⟩
    | some v => exact hd v hdata

/-- The data of a request that is accepted can be carried by the relay. -/
theorem ofRequest_sound {headers : List Header} {body : List UInt8} {e : Event}
    (h : ofRequest headers body = .ok e) :
    e.payload.Valid ∧ e.payload.depth < maxDepth - 1 := by
  unfold ofRequest at h
  split at h
  · cases h
  · split at h
    · cases h
    · split at h
      · next hbytes =>
        cases h
        rw [readBytes] at hbytes
        cases hread : read (longestText body).1 with
        | error f =>
          simp only [hread] at hbytes
          cases hbytes
        | ok e' =>
          simp only [hread] at hbytes
          cases hbytes
          exact read_sound hread
      · split at h <;> cases h

end EventHub.Web.PublishRequest
