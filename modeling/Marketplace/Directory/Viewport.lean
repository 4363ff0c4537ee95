import Marketplace.Search.Dropped

/-!
# What is a viewport

A viewport is given as four numbers, `min_lon,min_lat,max_lon,max_lat`: the grammar is
`Marketplace.Directory.IsBbox`. The parser counts the fields only after it has dropped the ones
that are no finite numbers. So it reads a box wherever the numbers among the fields make one
(`Marketplace.Directory.parseBbox_eq_some_iff`), be there other fields beside them or not, and it
keeps to the grammar on all other values (`Marketplace.Directory.readsViewport_iff`).
-/

namespace Marketplace.Directory

open Search

/-- **The box lies on the map**, and has an extent. -/
structure BoundingBox.OnMap (b : BoundingBox) : Prop where
  minLon : -180 ≤ b.minLon
  lon : b.minLon < b.maxLon
  maxLon : b.maxLon ≤ 180
  minLat : -90 ≤ b.minLat
  lat : b.minLat < b.maxLat
  maxLat : b.maxLat ≤ 90

/-- The sides of a box, in the order in which they are given. -/
def BoundingBox.sides (b : BoundingBox) : List ℚ := [b.minLon, b.minLat, b.maxLon, b.maxLat]

section Grammar

variable (env : Search.Env) (value : Text)

/-- The finite number that a field is, if it is one. -/
def number (field : Text) : Option ℚ := env.parseFloat (trim field)

/-- **The grammar of a viewport**: four fields, each of them a number, that make a box. -/
structure IsBbox (b : BoundingBox) : Prop where
  fields : (value.splitOn ',').map (number env) = b.sides.map some
  onMap : b.OnMap

/-- The numbers among the fields make a box, whatever else there is. -/
structure ContainsBbox (b : BoundingBox) : Prop where
  numbers : (value.splitOn ',').filterMap (number env) = b.sides
  onMap : b.OnMap

/-- **A value is read as the grammar says**: it is a box exactly if it is one of the grammar, and
of any other value a search says that it was dropped. -/
structure ReadsViewport : Prop where
  reads : ∀ b, parseBbox env value = some b ↔ IsBbox env value b
  names : ∀ (raw : RawQuery) (ids : List Uuid) (request : SearchRequest), raw.bbox = some value →
    parse env raw ids = .ok request → (∀ b, ¬ IsBbox env value b) →
      "bbox".toList ∈ request.ignored

end Grammar

variable {env : Search.Env} {value : Text} {b : BoundingBox}

/-- **What is read as a box.** -/
theorem parseBbox_eq_some_iff : parseBbox env value = some b ↔ ContainsBbox env value b := by
  constructor
  · intro h
    rw [parseBbox] at h
    split at h
    · rename_i minLon minLat maxLon maxLat hnumbers
      split at h
      · rename_i hrange
        obtain ⟨hlon, -, -, hlon', hlat, -, -, hlat', hltlon, hltlat⟩ := hrange
        obtain rfl := Option.some.inj h
        exact ⟨hnumbers, hlon, hltlon, hlon', hlat, hltlat, hlat'⟩
      · cases h
    · cases h
  · rintro ⟨hnumbers, hlon, hltlon, hlon', hlat, hltlat, hlat'⟩
    have hnumbers : (value.splitOn ',').filterMap (fun part => env.parseFloat (trim part)) =
        [b.minLon, b.minLat, b.maxLon, b.maxLat] := hnumbers
    rw [parseBbox, hnumbers]
    refine if_pos ⟨hlon, ?_, ?_, hlon', hlat, ?_, ?_, hlat', hltlon, hltlat⟩
    · exact hltlon.le.trans hlon'
    · exact hlon.trans hltlon.le
    · exact hltlat.le.trans hlat'
    · exact hlat.trans hltlat.le

/-- The values that are kept are all there are, if every value is kept. -/
theorem map_eq_map_some_iff {α β : Type} {f : α → Option β} {l : List α} {r : List β} :
    l.map f = r.map some ↔ l.filterMap f = r ∧ ∀ a ∈ l, (f a).isSome = true := by
  induction l generalizing r with
  | nil => cases r <;> simp
  | cons a l ih =>
    rcases ha : f a with _ | x
    · cases r <;> simp [ha]
    · rcases r with _ | ⟨y, r⟩
      · simp [ha]
      · simp [ha, ih, and_assoc]

/-- **A value of the grammar** contains a box, and nothing else. -/
theorem isBbox_iff : IsBbox env value b ↔ ContainsBbox env value b ∧
    ∀ field ∈ value.splitOn ',', (number env field).isSome = true := by
  constructor
  · intro h
    obtain ⟨hnumbers, hall⟩ := map_eq_map_some_iff.mp h.fields
    exact ⟨⟨hnumbers, h.onMap⟩, hall⟩
  · rintro ⟨h, hall⟩
    exact ⟨map_eq_map_some_iff.mpr ⟨h.numbers, hall⟩, h.onMap⟩

/-- **When a value is read as the grammar says**: if the numbers among its fields make a box, then
each field is a number. -/
theorem readsViewport_iff (env : Search.Env) (value : Text) :
    ReadsViewport env value ↔ ((∃ b, ContainsBbox env value b) →
      ∀ field ∈ value.splitOn ',', (number env field).isSome = true) := by
  constructor
  · rintro h ⟨b, hb⟩
    have hbox := (h.reads b).mp (parseBbox_eq_some_iff.mpr hb)
    exact (isBbox_iff.mp hbox).2
  · intro h
    have hreads : ∀ b, parseBbox env value = some b ↔ IsBbox env value b := by
      intro b
      rw [parseBbox_eq_some_iff, isBbox_iff]
      exact ⟨fun hb => ⟨hb, h ⟨b, hb⟩⟩, And.left⟩
    refine ⟨hreads, fun raw ids request hraw hparse hno => ?_⟩
    have hnone : parseBbox env value = none := by
      rw [Option.eq_none_iff_forall_ne_some]
      exact fun b hb => hno b ((hreads b).mp hb)
    rw [parse_ignored hparse]
    refine List.mem_append_right _ ?_
    rw [parseViewport, hraw]
    simp only [hnone]
    exact List.mem_singleton_self _

/-- A fifth field that is no number goes unnoticed. -/
theorem not_readsViewport :
    ¬ ReadsViewport Search.Env.plain "-119,33,north,-117,35".toList := by
  intro h
  have hread := (h.reads ⟨33, -119, 35, -117⟩).mp (by decide +kernel)
  have hlength := congrArg List.length hread.fields
  exact absurd hlength (by decide +kernel)

end Marketplace.Directory
