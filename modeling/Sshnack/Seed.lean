import Sshnack.Database

/-!
# The seed of `init.sql`

No user and no transaction exist in a fresh database. The thirty items get the ids 1 to 30 from
AUTOINCREMENT, in the order in which they are inserted.
-/

namespace Sshnack

def seedItems : List Item :=
  [⟨1, ascii "Cola Classic", 500⟩, ⟨2, ascii "Diet Cola", 500⟩, ⟨3, ascii "Zero Sugar Cola", 500⟩,
   ⟨4, ascii "Sparkling Water", 400⟩, ⟨5, ascii "Lemon Soda", 500⟩, ⟨6, ascii "Cherry Cola", 550⟩,
   ⟨7, ascii "Spring Water", 350⟩, ⟨8, ascii "Orange Juice", 650⟩, ⟨9, ascii "Apple Juice", 600⟩,
   ⟨10, ascii "Iced Tea", 500⟩, ⟨11, ascii "Sports Drink", 650⟩, ⟨12, ascii "Energy Drink", 800⟩,
   ⟨13, ascii "Potato Chips", 500⟩, ⟨14, ascii "Spicy Nacho Doritos", 550⟩,
   ⟨15, ascii "Pretzels", 400⟩, ⟨16, ascii "Cheese Crackers", 400⟩, ⟨17, ascii "Popcorn", 450⟩,
   ⟨18, ascii "BBQ Chips", 500⟩, ⟨19, ascii "Chocolate Peanut Bar", 450⟩,
   ⟨20, ascii "Gummy Bears", 400⟩, ⟨21, ascii "M&Ms", 550⟩, ⟨22, ascii "Snickers", 500⟩,
   ⟨23, ascii "Kit Kat", 450⟩, ⟨24, ascii "Oreo Cookies", 550⟩, ⟨25, ascii "Mixed Nuts", 650⟩,
   ⟨26, ascii "Protein Bar", 1000⟩, ⟨27, ascii "Granola Bar", 650⟩,
   ⟨28, ascii "Dried Fruit Mix", 600⟩, ⟨29, ascii "Trail Mix", 650⟩,
   ⟨30, ascii "Peanut Butter Crackers", 500⟩]

def seedStock : List Slot :=
  [⟨11, 1, 18⟩, ⟨12, 2, 18⟩, ⟨13, 3, 18⟩, ⟨14, 4, 20⟩, ⟨15, 5, 15⟩, ⟨16, 6, 12⟩, ⟨21, 7, 24⟩,
   ⟨22, 8, 12⟩, ⟨23, 9, 12⟩, ⟨24, 10, 15⟩, ⟨25, 11, 10⟩, ⟨26, 12, 10⟩, ⟨31, 13, 15⟩, ⟨32, 14, 15⟩,
   ⟨33, 15, 18⟩, ⟨34, 16, 18⟩, ⟨35, 17, 15⟩, ⟨36, 18, 15⟩, ⟨41, 19, 20⟩, ⟨42, 20, 20⟩, ⟨43, 21, 18⟩,
   ⟨44, 22, 15⟩, ⟨45, 23, 18⟩, ⟨46, 24, 18⟩, ⟨51, 25, 12⟩, ⟨52, 26, 10⟩, ⟨53, 27, 12⟩, ⟨54, 28, 12⟩,
   ⟨55, 29, 10⟩, ⟨56, 30, 15⟩]

def seedStockLogs : List StockLog :=
  [⟨1, .addition, 18⟩, ⟨2, .addition, 18⟩, ⟨3, .addition, 18⟩, ⟨4, .addition, 20⟩,
   ⟨5, .addition, 15⟩, ⟨6, .addition, 12⟩, ⟨7, .addition, 24⟩, ⟨8, .addition, 12⟩,
   ⟨9, .addition, 12⟩, ⟨10, .addition, 15⟩, ⟨11, .addition, 10⟩, ⟨12, .addition, 10⟩,
   ⟨13, .addition, 15⟩, ⟨14, .addition, 15⟩, ⟨15, .addition, 18⟩, ⟨16, .addition, 18⟩,
   ⟨17, .addition, 15⟩, ⟨18, .addition, 15⟩, ⟨19, .addition, 20⟩, ⟨20, .addition, 20⟩,
   ⟨21, .addition, 18⟩, ⟨22, .addition, 15⟩, ⟨23, .addition, 18⟩, ⟨24, .addition, 18⟩,
   ⟨25, .addition, 12⟩, ⟨26, .addition, 10⟩, ⟨27, .addition, 12⟩, ⟨28, .addition, 12⟩,
   ⟨29, .addition, 10⟩, ⟨30, .addition, 15⟩]

def seedTables : Tables := ⟨[], seedItems, seedStock, [], seedStockLogs, 0⟩

theorem seedTables_valid : seedTables.Valid := by decide

def seed : Db := ⟨seedTables, seedTables_valid⟩

end Sshnack
