import BitTape.Command
import BitTape.Main
import BitTape.Proofs.BlockCopy
import BitTape.Proofs.ListMachine
import BitTape.Proofs.Matching
import BitTape.Proofs.Stripping
import BitTape.Proofs.StrippedRun
import BitTape.Proofs.Encoding
import BitTape.Proofs.Tokens
import BitTape.Proofs.Words
import BitTape.Proofs.Alarms
import BitTape.Proofs.Grammar
import BitTape.Proofs.Runs
import BitTape.Proofs.RoundTrip
import BitTape.Proofs.Leaps
import BitTape.Proofs.Reading
import BitTape.Proofs.Mirror
import BitTape.Proofs.Choices
import BitTape.Proofs.CommandRun
import BitTape.Proofs.Mismatches
import BitTape.Proofs.StandardOutput
import BitTape.Proofs.ProgramSources
import BitTape.Proofs.Crashes
import BitTape.Proofs.Devices
import BitTape.Proofs.Listings
import BitTape.Proofs.Printing
import BitTape.Proofs.Complaints
import BitTape.Proofs.Extent
import BitTape.Proofs.Accesses
import BitTape.Proofs.Accounting
import BitTape.Proofs.Reports
import BitTape.Proofs.Guards
import BitTape.Proofs.Places
