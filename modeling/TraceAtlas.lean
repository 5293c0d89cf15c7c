import TraceAtlas.Proofs.OwnRows
import TraceAtlas.Proofs.Restart
import TraceAtlas.Session.Files
import TraceAtlas.Session.Registries
import TraceAtlas.Session.Surroundings
import TraceAtlas.Session.Tables
import TraceAtlas.Proofs.Handles
import TraceAtlas.Proofs.SeparateTables
import TraceAtlas.Proofs.SharedTable
import TraceAtlas.Proofs.Rooted
import TraceAtlas.Proofs.ObjectCache
import TraceAtlas.Proofs.Recovery
import TraceAtlas.Proofs.Canonical
import TraceAtlas.Proofs.WithoutContexts
import TraceAtlas.Proofs.Admission
import TraceAtlas.Proofs.OwnSlots
import TraceAtlas.Proofs.FileHandles
import TraceAtlas.Proofs.ErrorAccounts
import TraceAtlas.Proofs.Races
import TraceAtlas.Proofs.AppendOnly
import TraceAtlas.Proofs.ReloadRaces
import TraceAtlas.Proofs.ForeignContexts
import TraceAtlas.Proofs.CutFiles
import TraceAtlas.Proofs.PersistedRecords
import TraceAtlas.Proofs.LookupEffects
import TraceAtlas.Proofs.ContainerSearch
import TraceAtlas.Proofs.PathTexts
import TraceAtlas.Proofs.RowKeys
import TraceAtlas.Proofs.Listing
