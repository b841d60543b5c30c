namespace NodeProtocol

abbrev Ranking (ρ κ : Type) := List (ρ × κ)

namespace Ranking

def insert (before : ρ → ρ → Bool) (rank : ρ) (key : κ) : Ranking ρ κ → Ranking ρ κ
  | [] => [(rank, key)]
  | first :: rest =>
    if before rank first.1 then (rank, key) :: first :: rest
    else first :: insert before rank key rest

def erase [DecidableEq ρ] (ranking : Ranking ρ κ) (rank : ρ) : Ranking ρ κ :=
  ranking.filter (·.1 ≠ rank)

end Ranking

end NodeProtocol
