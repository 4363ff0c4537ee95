import Marketplace.Board.Map
import Marketplace.Directory.Map

/-!
# Lists and maps

The job board and the contractor directory each have a list and a map, asked with one query
string. `Marketplace.Search.lists_and_maps_agree_iff` puts the two together: the directory always
shows on its map the located rows of its list, and the board does so exactly where a job is shown
by its list and by its map alike.
-/

namespace Marketplace.Search

open Board

/-- **When the lists and the maps agree**, of the board and the directory alike. -/
theorem lists_and_maps_agree_iff {env : Env} (h : env.RoundTrips) (hempty : env.base64 [] = [])
    (hmono : Monotone env.toFloat8) (db : Board.Db) (instants : ℕ → Instant)
    (raw : Board.RawQuery) (hapart : BudgetsApart env db raw) (contractors : Directory.Db)
    (rawContractors : Directory.RawQuery) :
    (Board.ListMapAgree env db instants raw ∧
        Directory.ListMapAgree env contractors rawContractors) ↔ MapFits env db raw := by
  rw [list_map_agree_iff h hempty hmono db instants raw hapart]
  exact and_iff_left (Directory.list_map_agree h hempty contractors rawContractors)

/-! ### A job that matches only by its trade -/

/-- A board of one job, on the map, of a trade that people call by another name. -/
def repipe : Board.Db where
  jobs := [{ postedJob 1 none 10 with publicPoint := some ⟨34, -118⟩ }]
  conversations := []
  vocabulary := ⟨[(36, "c-36-plumbing".toList)], [("water heater".toList, 36)]⟩
  displayName := fun _ => some "Maria Lopez".toList
  jobs_nodup := by decide

/-- Asked without a text, both show it. -/
theorem lists_and_maps_agree_iff_browse :
    Board.ListMapAgree Env.plain repipe (fun _ => 100) {} ∧
      Directory.ListMapAgree Env.plain Directory.twoContractors {} := by
  have hsort : ∀ query, Board.resolve Env.plain repipe.vocabulary {} = .ok query →
      query.sort = .newest ∧ query.filters.query = none := by
    intro query hq
    obtain ⟨q, hparse, rfl⟩ := Board.resolve_eq hq
    obtain ⟨-, -, hs, hf⟩ := Board.parse_eq hparse
    exact ⟨(Except.ok.inj hs).symm, by rw [hf]; rfl⟩
  refine (lists_and_maps_agree_iff Env.plain_roundTrips rfl monotone_id repipe (fun _ => 100) {}
    ?_ Directory.twoContractors {}).mpr ?_
  · intro query hq hbudget
    rw [(hsort query hq).1] at hbudget
    exact absurd hbudget (by decide)
  · intro query hq rows l x r _ hdiffer
    obtain ⟨hnewest, htext⟩ := hsort query hq
    exact absurd (by simp [shownOnMap, shownInList, hnewest, htext]) hdiffer

/-- A search for water heaters. -/
def heaters : Board.RawQuery where
  q := some "water heater".toList

/-- **The map does not know the other name**: asked for water heaters, the list shows the job and
the map does not. -/
theorem alias_not_on_map :
    ¬(Board.ListMapAgree Env.plain repipe (fun _ => 100) heaters ∧
      Directory.ListMapAgree Env.plain Directory.twoContractors {}) := by
  have hmap : (Board.mapHandler Env.plain repipe heaters).toOption.map
      Board.MapResponse.points = some [] := by decide +kernel
  have hpage : (Board.listPage Env.plain repipe (fun _ => 100) heaters 0 none).2 = none := by
    decide +kernel
  have hshown : ((Board.listPage Env.plain repipe (fun _ => 100) heaters 0 none).1.filter
      fun j => j.lat.isSome).length = 1 := by decide +kernel
  rcases hm : Board.mapHandler Env.plain repipe heaters with e | m
  · rw [hm] at hmap
    exact absurd hmap (by simp [Except.toOption])
  rw [hm] at hmap
  have hnone : m.points = [] := by simpa [Except.toOption] using hmap
  refine not_and_of_not_left _ (Board.not_listMapAgree hm hpage ?_)
  rw [hnone, hshown]
  decide

end Marketplace.Search
