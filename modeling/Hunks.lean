import Hunks.Main
import Hunks.Proofs.Block.IndexEnds
import Hunks.Proofs.Block.Rewrite
import Hunks.Proofs.Block.Tags
import Hunks.Proofs.Debug
import Hunks.Proofs.Descriptor.Positions
import Hunks.Proofs.Descriptor.Reported
import Hunks.Proofs.Host.Filled
import Hunks.Proofs.Host.Labels
import Hunks.Proofs.Host.Search
import Hunks.Proofs.Hunk.Named
import Hunks.Proofs.Image.Respelled
import Hunks.Proofs.Link.EntryPoints
import Hunks.Proofs.Link.OneSlot
import Hunks.Proofs.Link.Placeholders
import Hunks.Proofs.Load.Abandoned
import Hunks.Proofs.Load.Failures
import Hunks.Proofs.Load.Renamed
import Hunks.Proofs.Relocation.Joined
import Hunks.Proofs.Relocation.Zero
import Hunks.Proofs.Resident.Announced
import Hunks.Proofs.Resident.Recounts
import Hunks.Proofs.Resident.Tables
import Hunks.Proofs.Session
